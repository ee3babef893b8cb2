import ComponentTags.Proofs.Expansion.Run
import ComponentTags.Proofs.Forest.Numbering
import ComponentTags.Proofs.Forest.Pass

/-!
# Stages

The text after each pass is known from the forest of the source: it is the source in which the
blocks up to the height of the pass have become calls. So a pass that meets no unknown component
goes from one stage to the next, and an expansion ends at the stage where no block is left or where
an unknown component stands.
-/

namespace ComponentTags

/-- No value holds a `<`, and every `<` before white space opens a tag. -/
structure Tag.Regular (source : Text) (tags : List Tag) : Prop where
  values : ∀ tag ∈ tags, ∀ a ∈ tag.attributes, '<' ∉ a.2
  spaced : Tag.SpacedOpen Place.first source tags

theorem Tag.Regular.plain_values {source : Text} {tags : List Tag} (h : Tag.Regular source tags)
    {pieces : Mark.Sequence} (htags : pieces.map (·.1.tag) = tags) :
    ∀ piece ∈ pieces, ∀ a ∈ piece.1.tag.attributes, Token.Plain a.2 := by
  intro piece hp a ha
  have hm : piece.1.tag ∈ tags := htags ▸ List.mem_map_of_mem hp
  exact Token.plain_iff_lacks.2 (Token.lacks_of_notMem (h.values _ hm a ha))

namespace Forest

/-- A forest after the text `lead`, read with its tags where the source has them. -/
structure Parsed (lead : Text) (f : Forest) : Prop where
  matched : f.Matched
  plain : Token.Plain lead
  readable : Mark.Readable f.pieces
  placed : Mark.placedFrom (Place.first.past lead) f.pieces = f.tags

/-- Of a forest with plain values no call brings up a tag. -/
structure Layout (lead : Text) (f : Forest) : Prop extends Parsed lead f where
  values : ∀ piece ∈ f.pieces, ∀ a ∈ piece.1.tag.attributes, Token.Plain a.2

theorem exists_parsed {source : Text} {tags : List Tag} (hl : Tag.list source = .ok tags)
    (hb : Balanced tags) (h : Tag.SpacedOpen Place.first source tags) :
    ∃ lead f, Parsed lead f ∧ source = lead ++ f.text ∧ f.tags = tags := by
  obtain ⟨lead, pieces, rfl, hlead, hreadable, hplaced, htags⟩ :=
    Tag.exists_marked (p := Place.first) hl h
  obtain ⟨f, rfl, hf⟩ := exists_of_balanced hb htags
  exact ⟨lead, f, ⟨hf, hlead, hreadable, hplaced.trans htags.symm⟩, rfl, htags⟩

theorem exists_layout {source : Text} {tags : List Tag} (hl : Tag.list source = .ok tags)
    (hb : Balanced tags) (h : Tag.Regular source tags) :
    ∃ lead f, Layout lead f ∧ source = lead ++ f.text ∧ f.tags = tags := by
  obtain ⟨lead, f, hparsed, hsource, htags⟩ := exists_parsed hl hb h.spaced
  exact ⟨lead, f, ⟨hparsed, h.plain_values htags⟩, hsource, htags⟩

namespace Parsed

variable {lead : Text} {f : Forest}

theorem ofTags?_eq (h : Parsed lead f) : ofTags? (lead ++ f.text) f.tags = some (lead, f) :=
  Forest.ofTags?_eq h.matched h.placed

theorem pairwise_blocks (h : Parsed lead f) :
    (f.blocks.map Prod.snd).Pairwise fun s t => s.span.start < t.span.start := by
  exact Forest.pairwise_blocks h.matched (Mark.text_ne_nil h.readable) h.placed

end Parsed

end Forest

namespace Expander

open Forest (Layout)

/-- The numbers of blocks for an expander that has numbered others before. -/
def numbering (x : Expander) (f : Forest) (height : Nat) (tag : Tag) : Nat :=
  x.issued + f.number height tag

/-- The expander after the blocks of height at most `k` have been numbered. -/
def after (x : Expander) (f : Forest) (k : Nat) : Expander :=
  { x with issued := x.issued + f.blocks.countP (·.1 ≤ k) }

/-- The text in which the blocks of height at most `k` have become calls. -/
def stage (x : Expander) (lead : Text) (f : Forest) (k : Nat) : Text :=
  lead ++ f.replaceBelow (x.numbering f) (k + 1)

/-- The leaf blocks of a stage, each with the tag that begins it in the source. -/
def leavesOfStage (x : Expander) (lead : Text) (f : Forest) (k : Nat) : List (Tag × Block) :=
  let rest := f.reduce (x.numbering f) k
  rest.2.leavesAt (Place.first.past (lead ++ rest.1))

variable {x : Expander} {lead : Text} {f : Forest}

theorem stage_eq (x : Expander) (lead : Text) (f : Forest) (k : Nat) : x.stage lead f k =
    (lead ++ (f.reduce (x.numbering f) k).1) ++ (f.reduce (x.numbering f) k).2.text := by
  rw [stage, Forest.replaceBelow_eq, List.append_assoc]

theorem leaves_stage (h : Layout lead f) (k : Nat) :
    Block.leaves (x.stage lead f k) = .ok ((x.leavesOfStage lead f k).map Prod.snd) := by
  obtain ⟨hplain, hhead, hreadable⟩ :=
    Forest.readable_reduce (x.numbering f) k h.readable h.values
  rw [stage_eq]
  exact Forest.leaves_eq (Forest.matched_reduce h.matched)
    (Token.plain_append h.plain hplain hhead) hreadable

/-- The leaf blocks of a stage are the blocks of the next height. -/
theorem map_fst_leavesOfStage (x : Expander) (lead : Text) (f : Forest) (k : Nat) :
    (x.leavesOfStage lead f k).map Prod.fst =
      (f.blocks.filter (·.1 == k + 1)).map Prod.snd := by
  have hheight (b : Nat × Tag) :
      (b.1 - k == 1 && decide (k < b.1)) = (b.1 == k + 1) := by
    rw [Bool.eq_iff_iff]
    simp only [Bool.and_eq_true, beq_iff_eq, decide_eq_true_eq]
    omega
  rw [leavesOfStage, Forest.map_fst_leavesAt, Forest.blocks_reduce, List.filter_map,
    List.filter_filter, List.map_map]
  simp only [Function.comp_def, hheight]

theorem length_leavesOfStage (x : Expander) (lead : Text) (f : Forest) (k : Nat) :
    (x.leavesOfStage lead f k).length = f.blocks.countP (·.1 == k + 1) := by
  rw [List.countP_eq_length_filter, ← List.length_map Prod.fst, map_fst_leavesOfStage,
    List.length_map]

theorem countP_le_succ (blocks : List (Nat × Tag)) (k : Nat) :
    blocks.countP (·.1 ≤ k + 1) = blocks.countP (·.1 ≤ k) + blocks.countP (·.1 == k + 1) := by
  have hsplit : ∀ b ∈ blocks, decide (b.1 ≤ k) → (b.1 == k + 1) = false := by
    intro b _ hb
    have hle := of_decide_eq_true hb
    rw [beq_eq_false_iff_ne]
    omega
  rw [← Forest.countP_or _ _ hsplit]
  refine List.countP_congr fun b _ => ?_
  simp only [decide_eq_true_eq, Bool.or_eq_true, beq_iff_eq]
  omega

theorem after_succ (x : Expander) (lead : Text) (f : Forest) (k : Nat) :
    x.after f (k + 1) = { x.after f k with
      issued := (x.after f k).issued + (x.leavesOfStage lead f k).length } := by
  simp only [after, countP_le_succ, length_leavesOfStage, Nat.add_assoc]

/-- The calls of a pass are numbered as the whole forest says. -/
theorem replacements_stage (h : Layout lead f) (k : Nat) :
    replacements ((x.after f k).issued + 1) ((x.leavesOfStage lead f k).map Prod.snd) =
      Forest.callsOf (x.numbering f (k + 1)) (x.leavesOfStage lead f k) := by
  apply Forest.replacements_eq
  have hnumbers := Forest.map_number h.pairwise_blocks (k + 1)
  have hlower : f.blocks.countP (·.1 < k + 1) = f.blocks.countP (·.1 ≤ k) := by
    simp only [Nat.lt_succ_iff]
  rw [map_fst_leavesOfStage, length_leavesOfStage]
  calc ((f.blocks.filter (·.1 == k + 1)).map Prod.snd).map (x.numbering f (k + 1))
      = (((f.blocks.filter (·.1 == k + 1)).map Prod.snd).map (f.number (k + 1))).map
          (x.issued + ·) := by
        rw [List.map_map (g := (x.issued + ·))]
        rfl
    _ = _ := by
        rw [hnumbers, List.map_add_range', hlower]
        rfl

theorem splice_stage (x : Expander) (lead : Text) (f : Forest) (k : Nat) :
    Text.splice (x.stage lead f k) 0
        (Forest.callsOf (x.numbering f (k + 1)) (x.leavesOfStage lead f k)) =
      x.stage lead f (k + 1) := by
  have hnumber : (f.reduce (x.numbering f) k).2.reduce (fun _ => x.numbering f (k + 1)) 1 =
      (f.reduce (x.numbering f) k).2.reduce (fun height => x.numbering f (height + k)) 1 := by
    refine Forest.reduce_congr fun height hpos hle => ?_
    rw [Nat.le_antisymm hle hpos, Nat.add_comm]
  rw [stage_eq, stage_eq, leavesOfStage, Forest.splice_text, hnumber, Forest.reduce_add]
  simp only [List.append_assoc]

theorem after_zero (x : Expander) (f : Forest) : x.after f 0 = x := by
  have hnone : f.blocks.countP (·.1 ≤ 0) = 0 := by
    rw [List.countP_eq_zero]
    intro b hb
    have hpos := Forest.one_le_of_mem_blocks hb
    rw [decide_eq_true_eq]
    omega
  rw [after, hnone, Nat.add_zero]

theorem stage_zero (x : Expander) (lead : Text) (f : Forest) :
    x.stage lead f 0 = lead ++ f.text := by
  rw [stage_eq, Forest.reduce_zero, List.append_nil]

/-! ## From stage to stage -/

theorem pass_of_known (x : Expander) (source : Text) {blocks : List Block}
    (h : ∀ block ∈ blocks, x.knows block.name) :
    x.pass source blocks = ({ x with issued := x.issued + blocks.length },
      .ok (Text.splice source 0 (replacements (x.issued + 1) blocks))) := by
  have hnone : blocks.find? (!x.knows ·.name) = none := by
    rw [List.find?_eq_none]
    intro block hb
    simp [h block hb]
  rw [pass, hnone]

theorem pass_of_unknown {x : Expander} {blocks : List Block} {block : Block} (source : Text)
    (h : blocks.find? (!x.knows ·.name) = some block) :
    x.pass source blocks =
      ({ x with issued := x.issued + (blocks.takeWhile (x.knows ·.name)).length },
        .error (.unknownComponent block.name block.line)) := by
  rw [pass, h]

/-- By name, the leaf blocks of a stage are the blocks of the next height. -/
theorem map_name_leavesOfStage (x : Expander) (lead : Text) (f : Forest) (k : Nat) :
    ((x.leavesOfStage lead f k).map Prod.snd).map Block.name =
      (f.blocks.filter (·.1 == k + 1)).map (·.2.name) := by
  calc ((x.leavesOfStage lead f k).map Prod.snd).map Block.name
      = ((x.leavesOfStage lead f k).map Prod.fst).map Tag.name := by
        rw [List.map_map, List.map_map]
        exact List.map_congr_left fun leaf hm => Forest.name_of_mem_leavesAt hm
    _ = _ := by
        rw [map_fst_leavesOfStage, List.map_map]
        rfl

/-- Without an unknown component among the blocks of the next height, a pass goes one stage on. -/
theorem step_stage (h : Layout lead f) {k : Nat} (hk : k < f.height)
    (hknown : ∀ b ∈ f.blocks, b.1 = k + 1 → x.knows b.2.name) :
    Step (x.after f k) (x.stage lead f k) (x.after f (k + 1)) (x.stage lead f (k + 1)) := by
  refine .pass (leaves_stage h k) ?_ ?_
  · obtain ⟨b, hb, hheight⟩ := Forest.exists_mem_blocks (f := f) (Nat.le_add_left 1 k) hk
    have hpos : 0 < f.blocks.countP (·.1 == k + 1) :=
      List.countP_pos_iff.2 ⟨b, hb, beq_iff_eq.2 hheight⟩
    rw [← length_leavesOfStage x lead] at hpos
    rw [ne_eq, List.map_eq_nil_iff, ← List.length_eq_zero_iff]
    omega
  · have hleaves : ∀ block ∈ (x.leavesOfStage lead f k).map Prod.snd,
        (x.after f k).knows block.name := by
      intro block hblock
      have hname := List.mem_map_of_mem hblock (f := Block.name)
      rw [map_name_leavesOfStage] at hname
      obtain ⟨b, hb, hname⟩ := List.mem_map.1 hname
      obtain ⟨hb, hheight⟩ := List.mem_filter.1 hb
      exact hname ▸ hknown b hb (beq_iff_eq.1 hheight)
    rw [pass_of_known _ _ hleaves, replacements_stage h, splice_stage, after_succ x lead,
      List.length_map]

theorem steps_stage (h : Layout lead f) {k : Nat} (hk : k ≤ f.height)
    (hknown : ∀ b ∈ f.blocks, b.1 ≤ k → x.knows b.2.name) :
    Steps x (lead ++ f.text) k (x.after f k) (x.stage lead f k) := by
  induction k with
  | zero =>
    rw [after_zero, stage_zero]
    exact .refl x _
  | succ k ih =>
    have hstep := step_stage (x := x) h hk fun b hb hheight => hknown b hb (Nat.le_of_eq hheight)
    exact (ih (Nat.le_of_succ_le hk) fun b hb hle => hknown b hb (Nat.le_succ_of_le hle)).snoc hstep

/-- Where every component is known, the whole forest is translated. -/
theorem expand_known (h : Layout lead f) (hknown : ∀ b ∈ f.blocks, x.knows b.2.name) :
    x.expand (lead ++ f.text) =
      ⟨{ x with issued := x.issued + f.blocks.length }, lead ++ f.translate (x.numbering f),
        .ok f.height⟩ := by
  have hsteps := steps_stage (x := x) h (Nat.le_refl f.height) fun b hb _ => hknown b hb
  have hleaves : (x.leavesOfStage lead f f.height).map Prod.snd = [] := by
    rw [List.map_eq_nil_iff, ← List.length_eq_zero_iff, length_leavesOfStage, List.countP_eq_zero]
    intro b hb
    have hle := Forest.le_height_of_mem_blocks hb
    rw [beq_iff_eq]
    omega
  have hdone := leaves_stage (x := x) h f.height
  rw [hleaves] at hdone
  have hall : f.blocks.countP (·.1 ≤ f.height) = f.blocks.length := by
    rw [List.countP_eq_length]
    intro b hb
    exact decide_eq_true (Forest.le_height_of_mem_blocks hb)
  rw [expand, expandFrom_of_steps hsteps, expandFrom_of_halts (.done hdone), stage,
    Forest.replaceBelow_eq_translate (Nat.lt_succ_self _), after, hall, Nat.zero_add]

/-- Without a registry, calls are numbered from one by height and place. -/
theorem expand_of_layout (h : Layout lead f) :
    expand { registry := none } (lead ++ f.text) =
      ⟨{ registry := none, issued := f.blocks.length }, lead ++ f.translate f.number,
        .ok f.height⟩ := by
  have hnumber : numbering { registry := none } f = f.number := by
    funext height tag
    exact Nat.zero_add _
  rw [expand_known h fun _ _ => rfl, hnumber]
  simp only [Nat.zero_add]

/-- A property that holds at zero but not everywhere fails first after a number at which it
holds. -/
theorem exists_last_of_zero {P : Nat → Prop} (hzero : P 0) {n : Nat} (hn : ¬ P n) :
    ∃ k < n, P k ∧ ¬ P (k + 1) := by
  induction n with
  | zero => exact absurd hzero hn
  | succ n ih =>
    by_cases hp : P n
    · exact ⟨n, Nat.lt_succ_self n, hp, hn⟩
    · obtain ⟨k, hk, h⟩ := ih hp
      exact ⟨k, Nat.lt_succ_of_lt hk, h⟩

/-- The first unknown leaf block of a stage is the first unknown block of the next height. -/
theorem find?_leavesOfStage (x : Expander) (lead : Text) (f : Forest) (k : Nat) :
    (((x.leavesOfStage lead f k).map Prod.snd).find? (!x.knows ·.name)).map Block.name =
      (f.blocks.find? fun b => b.1 == k + 1 && !x.knows b.2.name).map (·.2.name) := by
  have hnames := map_name_leavesOfStage x lead f k
  generalize (x.leavesOfStage lead f k).map Prod.snd = blocks at hnames ⊢
  have hfind := congrArg (List.find? (!x.knows ·)) hnames
  rw [List.find?_map, List.find?_map, List.find?_filter] at hfind
  simpa only [Function.comp_def, Bool.decide_and, Bool.decide_eq_true] using hfind

/-- Where a component is unknown, the expansion ends at the stage below the least height at which
there is one. -/
theorem expand_unknown (h : Layout lead f) (hunknown : ∃ b ∈ f.blocks, x.knows b.2.name = false) :
    ∃ k b blocks block y,
      (∀ b ∈ f.blocks, b.1 ≤ k → x.knows b.2.name) ∧
      (f.blocks.find? fun b => b.1 == k + 1 && !x.knows b.2.name) = some b ∧
      Block.leaves (x.stage lead f k) = .ok blocks ∧
      blocks.find? (!x.knows ·.name) = some block ∧ block.name = b.2.name ∧
      x.expand (lead ++ f.text) =
        ⟨y, x.stage lead f k, .error (.unknownComponent block.name block.line)⟩ := by
  let Known (k : Nat) : Prop := ∀ b ∈ f.blocks, b.1 ≤ k → x.knows b.2.name
  have hzero : Known 0 := by
    intro b hb hle
    have hpos := Forest.one_le_of_mem_blocks hb
    omega
  have hheight : ¬ Known f.height := by
    intro hknown
    obtain ⟨b, hb, hfalse⟩ := hunknown
    rw [hknown b hb (Forest.le_height_of_mem_blocks hb)] at hfalse
    cases hfalse
  obtain ⟨k, hk, hknown, hnext⟩ := exists_last_of_zero (P := Known) hzero hheight
  cases hfind : f.blocks.find? fun b => b.1 == k + 1 && !x.knows b.2.name with
  | none =>
    -- then the blocks of the next height were known as well
    refine absurd (fun b hb hle => ?_) hnext
    rcases Nat.lt_or_ge k b.1 with hlt | hle'
    · have hb := List.find?_eq_none.1 hfind b hb
      have hheight : b.1 = k + 1 := by omega
      simpa [hheight] using hb
    · exact hknown b hb hle'
  | some b =>
    have hleaf := find?_leavesOfStage x lead f k
    rw [hfind, Option.map_some, Option.map_eq_some_iff] at hleaf
    obtain ⟨block, hblock, hname⟩ := hleaf
    have hsteps := steps_stage (x := x) h (Nat.le_of_lt hk) hknown
    have hpass := pass_of_unknown (x := x.after f k) (x.stage lead f k) hblock
    have hexpand := (expandFrom_of_steps hsteps 0).trans
      (expandFrom_of_halts (.unknown (leaves_stage h k) hpass))
    exact ⟨k, b, _, block, _, hknown, hfind, leaves_stage h k, hblock, hname, hexpand⟩

end Expander

end ComponentTags
