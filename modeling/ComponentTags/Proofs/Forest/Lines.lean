import Mathlib.Algebra.Order.Ring.Nat
import ComponentTags.Proofs.Forest.Pass

/-!
# Lines of reduced forests

A call keeps the line breaks of the body of its block and those inside the single expressions of its
values. All others that its tags are written with are lost, so that what comes after the call moves
up by as many lines. A leaf block of a reduced forest stands as many lines too high as the blocks
have lost that were replaced before it.
-/

namespace ComponentTags

/-! ## Line breaks of a call -/

namespace Text

theorem lineBreaks_eq_zero {s : Text} : lineBreaks s = 0 ↔ '\n' ∉ s :=
  List.count_eq_zero

theorem notMem_escape (c : Char) : '\n' ∉ escape c := by
  have digits : ∀ n < 32, hexDigit (n / 16) ≠ '\n' ∧ hexDigit (n % 16) ≠ '\n' := by decide
  unfold escape
  repeat' split
  all_goals simp_all [eq_comm]

/-- A literal stands on one line. -/
theorem lineBreaks_quote (s : Text) : lineBreaks (quote s) = 0 := by
  rw [lineBreaks_eq_zero, quote]
  simp [notMem_escape]

end Text

namespace Call

theorem lineBreaks_valueExpression_le (value : Text) :
    Text.lineBreaks (valueExpression value) ≤ Text.lineBreaks value := by
  refine count_valueExpression_le_of (by decide) (fun s => ?_) value
  exact Nat.le_trans (Nat.le_of_eq (Text.lineBreaks_quote s)) (Nat.zero_le _)

/-- Names of attributes are quoted, so line breaks come from the values alone. -/
theorem lineBreaks_attributeMap_le (attributes : Attributes) :
    Text.lineBreaks (attributeMap attributes) ≤
      Text.lineBreaks (attributes.flatMap Prod.snd) := by
  refine count_attributeMap_le_of (by decide) fun a _ => ?_
  have hkey := Text.lineBreaks_quote a.1
  have hvalue := lineBreaks_valueExpression_le a.2
  simp only [Text.lineBreaks] at hkey hvalue
  simpa [attributeMap.entry, hkey] using hvalue

theorem lineBreaks_opening (number : Nat) (block : Block) :
    Text.lineBreaks (opening number block) = Text.lineBreaks (attributeMap block.attributes) := by
  have hname := Text.lineBreaks_quote (Text.lower block.name)
  have hid := Text.lineBreaks_quote (identifier block.name number)
  simp only [Text.lineBreaks] at hname hid ⊢
  simp [opening, functionName, hname, hid]

/-- Of the tags of a block, a call keeps the line breaks of the attributes. -/
theorem lineBreaks_ofBlock (number : Nat) (block : Block) :
    Text.lineBreaks (ofBlock number block) = Text.lineBreaks (attributeMap block.attributes) +
      if block.isSelfClosing then 0 else Text.lineBreaks block.body := by
  have hopening := lineBreaks_opening number block
  have hvariable : (bodyVariable number).count '\n' = 0 := by
    simp [bodyVariable, Delimited.reserved, Text.count_ofNat]
  have houtput (arguments : Text) : Text.lineBreaks (Delimited.output arguments) =
      Text.lineBreaks arguments := by
    simp [Text.lineBreaks, Delimited.output]
  have hcapture : Text.lineBreaks (capture number block.body) = Text.lineBreaks block.body := by
    simp [Text.lineBreaks, capture, Delimited.statement, hvariable]
  unfold ofBlock
  split
  · rw [houtput, Text.lineBreaks_append, hopening]
    rfl
  · simp only [Text.lineBreaks_append, houtput, hcapture, hopening]
    simp only [Text.lineBreaks, hvariable]
    rw [Nat.add_comm]
    rfl

end Call

/-! ## Lines lost -/

/-- The line breaks that a tag is written with and that its call does not keep. -/
def Mark.lostBreaks (m : Mark) : Nat :=
  Text.lineBreaks m.text - Text.lineBreaks (Call.attributeMap m.tag.attributes)

theorem Mark.lostBreaks_add {m : Mark} (h : m.tag.KeptFrom m.text) :
    m.lostBreaks + Text.lineBreaks (Call.attributeMap m.tag.attributes) =
      Text.lineBreaks m.text := by
  have hmap := Call.lineBreaks_attributeMap_le m.tag.attributes
  have hvalues := h.breaks_le
  rw [lostBreaks]
  omega

theorem Mark.lostBreaks_of_closing {m : Mark} (h : m.tag.KeptFrom m.text)
    (hk : m.tag.kind = .closing) : m.lostBreaks = Text.lineBreaks m.text := by
  rw [← lostBreaks_add h, h.attributes_closing hk]
  rfl

namespace Forest

/-- The blocks in the order in which they begin, each with the line breaks that are lost when it
becomes a call. -/
def losses : Forest → List ((Nat × Tag) × Nat)
  | nil => []
  | single mark _ rest => ((1, mark.tag), mark.lostBreaks) :: rest.losses
  | pair start _ body finish _ rest =>
    ((body.height + 1, start.tag), start.lostBreaks + finish.lostBreaks) ::
      (body.losses ++ rest.losses)

theorem map_fst_losses (f : Forest) : f.losses.map Prod.fst = f.blocks := by
  induction f with
  | nil => rfl
  | single mark after rest ih => simp [losses, blocks, ih]
  | pair start inside body finish after rest ihb ihr => simp [losses, blocks, ihb, ihr]

/-- What the blocks of height at most `k` lose together. -/
def lostUpTo (k : Nat) (losses : List ((Nat × Tag) × Nat)) : Nat :=
  ((losses.filter (·.1.1 ≤ k)).map Prod.snd).sum

@[simp] theorem lostUpTo_nil (k : Nat) : lostUpTo k [] = 0 := rfl

theorem lostUpTo_cons {k : Nat} (loss : (Nat × Tag) × Nat) (losses : List ((Nat × Tag) × Nat)) :
    lostUpTo k (loss :: losses) = (if loss.1.1 ≤ k then loss.2 else 0) + lostUpTo k losses := by
  by_cases h : loss.1.1 ≤ k <;> simp [lostUpTo, h]

@[simp] theorem lostUpTo_append (k : Nat) (losses losses' : List ((Nat × Tag) × Nat)) :
    lostUpTo k (losses ++ losses') = lostUpTo k losses + lostUpTo k losses' := by
  simp [lostUpTo]

variable {number : Nat → Tag → Nat} {k : Nat}

/-- A reduced forest has the line breaks of the forest but for those that its blocks lost. -/
theorem lineBreaks_reduce (number : Nat → Tag → Nat) (k : Nat) {f : Forest} (h : f.Matched)
    (hkept : ∀ piece ∈ f.pieces, piece.1.tag.KeptFrom piece.1.text) :
    Text.lineBreaks f.text = Text.lineBreaks (f.reduce number k).1 +
      Text.lineBreaks (f.reduce number k).2.text + lostUpTo k f.losses := by
  induction f with
  | nil => rfl
  | single mark after rest ih =>
    obtain ⟨hmark, hrest⟩ := List.forall_mem_cons.1 hkept
    have hlost := Mark.lostBreaks_add (m := mark) hmark
    have ih := ih h.2 hrest
    rcases Nat.lt_or_ge k 1 with hk | hk
    · rw [keep_single hk]
      simp only [losses, lostUpTo_cons, Nat.not_le.2 hk, text_single, Text.lineBreaks_append,
        Text.lineBreaks_nil, if_false]
      omega
    · rw [reduce_single hk]
      simp only [losses, lostUpTo_cons, hk, text_single, Text.lineBreaks_append, if_true,
        Call.lineBreaks_ofBlock, Block.ofSelfClosing]
      omega
  | pair start inside body finish after rest ihb ihr =>
    obtain ⟨-, hf, -, hb, hr⟩ := h
    obtain ⟨hstart, hinner⟩ := List.forall_mem_cons.1 hkept
    obtain ⟨hbody, houter⟩ := List.forall_mem_append.1 hinner
    obtain ⟨hfinish, hrest⟩ := List.forall_mem_cons.1 houter
    have hlost := Mark.lostBreaks_add (m := start) hstart
    have hlostFinish := Mark.lostBreaks_of_closing (m := finish) hfinish hf
    have ihb := ihb hb hbody
    have ihr := ihr hr hrest
    rcases Nat.lt_or_ge k (body.height + 1) with hk | hk
    · rw [keep_pair hk]
      simp only [losses, lostUpTo_cons, Nat.not_le.2 hk, text_pair, Text.lineBreaks_append,
        Text.lineBreaks_nil, if_false, lostUpTo_append]
      omega
    · rw [reduce_eq_nil (by omega : body.height ≤ k)] at ihb
      rw [reduce_pair hk]
      simp only [losses, lostUpTo_cons, hk, text_pair, Text.lineBreaks_append, if_true,
        Call.lineBreaks_ofBlock, Block.enclosing, lostUpTo_append, text_nil, Text.lineBreaks_nil]
        at ihb ⊢
      simp only [Bool.false_eq_true, if_false]
      omega

/-- The tag of a leaf block of height `k + 1` is among the blocks, and the leaf stands on the line
of its tag, moved like the places from `p` to `q` and up by what the lower blocks before it lost. -/
def Traced (k : Nat) (losses : List ((Nat × Tag) × Nat)) (leaf : Tag × Block) (p q : Place) :
    Prop :=
  ∃ before lost after, losses = before ++ ((k + 1, leaf.1), lost) :: after ∧
    leaf.2.line + lostUpTo k before + p.line = leaf.1.line + q.line

theorem Traced.head {tag : Tag} {block : Block} {p q : Place} (lost : Nat)
    (losses : List ((Nat × Tag) × Nat)) (hline : block.line + p.line = tag.line + q.line) :
    Traced k (((k + 1, tag), lost) :: losses) (tag, block) p q :=
  ⟨[], lost, losses, rfl, hline⟩

variable {losses : List ((Nat × Tag) × Nat)} {leaf : Tag × Block} {p q : Place}

theorem Traced.before (h : Traced k losses leaf p q) (more : List ((Nat × Tag) × Nat)) :
    Traced k (losses ++ more) leaf p q := by
  obtain ⟨before, lost, after, rfl, hline⟩ := h
  exact ⟨before, lost, after ++ more, by simp, hline⟩

theorem Traced.after (h : Traced k losses leaf p q) (more : List ((Nat × Tag) × Nat))
    {p' q' : Place} (hline : q.line + lostUpTo k more + p'.line = p.line + q'.line) :
    Traced k (more ++ losses) leaf p' q' := by
  obtain ⟨before, lost, after, rfl, hleaf⟩ := h
  refine ⟨more ++ before, lost, after, by simp, ?_⟩
  rw [lostUpTo_append]
  omega

/-- The leaf blocks of a reduced forest are traced to the blocks of the forest. -/
theorem line_of_mem_leavesAt {f : Forest} (h : f.Matched)
    (hkept : ∀ piece ∈ f.pieces, piece.1.tag.KeptFrom piece.1.text)
    (htags : Mark.placedFrom p f.pieces = f.tags)
    (hleaf : leaf ∈ (f.reduce number k).2.leavesAt (q.past (f.reduce number k).1)) :
    Traced k f.losses leaf p q := by
  induction f generalizing p q with
  | nil => cases hleaf
  | single mark gap rest ih =>
    obtain ⟨hmark, hrest⟩ := List.forall_mem_cons.1 hkept
    obtain ⟨hplaced, hpieces⟩ := List.cons.inj htags
    have hlost := Mark.lostBreaks_add (m := mark) hmark
    let first := ((1, mark.tag), mark.lostBreaks)
    rcases Nat.lt_or_ge k 1 with hk | hk
    · rw [keep_single hk] at hleaf
      rcases List.mem_cons.1 hleaf with rfl | hleaf
      · obtain rfl : k = 0 := by omega
        have hline : mark.tag.line = p.line := congrArg Tag.line hplaced.symm
        exact .head _ _ (by rw [hline]; exact Nat.add_comm ..)
      · rw [Place.past_append] at hleaf
        refine (ih h.2 hrest hpieces hleaf).after [first] ?_
        simp only [first, lostUpTo_cons, lostUpTo_nil, Nat.not_le.2 hk, if_false, Place.line_past,
          Place.past_nil]
        omega
    · rw [reduce_single hk, Place.past_append, Place.past_append] at hleaf
      refine (ih h.2 hrest hpieces hleaf).after [first] ?_
      simp only [first, lostUpTo_cons, lostUpTo_nil, hk, if_true, Place.line_past,
        Call.lineBreaks_ofBlock, Block.ofSelfClosing]
      omega
  | pair start inside body finish gap rest ihb ihr =>
    obtain ⟨-, hf, -, hb, hr⟩ := h
    obtain ⟨hstart, hinner⟩ := List.forall_mem_cons.1 hkept
    obtain ⟨hbody, houter⟩ := List.forall_mem_append.1 hinner
    obtain ⟨hfinish, hrest⟩ := List.forall_mem_cons.1 houter
    obtain ⟨hplaced, hinner⟩ := List.cons.inj htags
    rw [Mark.placedFrom_append, List.map_append] at hinner
    obtain ⟨hbodyTags, houter⟩ := List.append_inj hinner (by simp [Mark.length_placedFrom])
    obtain ⟨-, hrestTags⟩ := List.cons.inj houter
    have hlost := Mark.lostBreaks_add (m := start) hstart
    have hlostFinish := Mark.lostBreaks_of_closing (m := finish) hfinish hf
    have htotal : Text.lineBreaks (Mark.textOf body.pieces) = _ :=
      lineBreaks_reduce number k hb hbody
    let first := ((body.height + 1, start.tag), start.lostBreaks + finish.lostBreaks)
    rcases Nat.lt_or_ge k (body.height + 1) with hk | hk
    · rw [keep_pair hk] at hleaf
      rcases List.mem_append.1 hleaf with hleaf | hleaf
      · split at hleaf
        · next hheight =>
          -- nothing is left of the body, so the pair is a leaf itself
          rw [height_reduce] at hheight
          obtain rfl : k = body.height := by omega
          obtain rfl := List.mem_singleton.1 hleaf
          have hline : start.tag.line = p.line := congrArg Tag.line hplaced.symm
          exact .head _ _ (by rw [hline]; exact Nat.add_comm ..)
        · rw [Place.past_append] at hleaf
          refine ((ihb hb hbody hbodyTags hleaf).before rest.losses).after [first] ?_
          simp only [first, lostUpTo_cons, lostUpTo_nil, Nat.not_le.2 hk, if_false, Place.line_past,
            Place.past_nil]
          omega
      · rw [Place.past_append] at hleaf
        refine (ihr hr hrest hrestTags hleaf).after (first :: body.losses) ?_
        simp only [first, lostUpTo_cons, Nat.not_le.2 hk, if_false, Place.line_past,
          Place.past_nil, Text.lineBreaks_append]
        omega
    · rw [reduce_pair hk, Place.past_append, Place.past_append] at hleaf
      rw [reduce_eq_nil (by omega : body.height ≤ k), text_nil, Text.lineBreaks_nil] at htotal
      refine (ihr hr hrest hrestTags hleaf).after (first :: body.losses) ?_
      simp only [first, lostUpTo_cons, hk, if_true, Place.line_past, Call.lineBreaks_ofBlock,
        Block.enclosing, Text.lineBreaks_append, Bool.false_eq_true, if_false]
      omega

end Forest

end ComponentTags
