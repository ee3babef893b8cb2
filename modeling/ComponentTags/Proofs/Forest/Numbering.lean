import ComponentTags.Proofs.Forest.Reduction

/-!
# Numbers of blocks

Blocks are listed as they begin in the source. So among the blocks of one height, numbers rise by
one from each to the next, from one more than there are lower blocks. Over all blocks, every number
from one to the number of blocks is given once.
-/

namespace ComponentTags

namespace Forest

/-! ## The order of blocks -/

theorem pairwise_placedFrom {pieces : Mark.Sequence} (h : ∀ piece ∈ pieces, piece.1.text ≠ [])
    (p : Place) :
    (Mark.placedFrom p pieces).Pairwise fun s t => s.span.start < t.span.start := by
  induction pieces generalizing p with
  | nil => exact .nil
  | cons piece pieces ih =>
    obtain ⟨mark, after⟩ := piece
    obtain ⟨hmark, hrest⟩ := List.forall_mem_cons.1 h
    refine .cons (fun tag ht => ?_) (ih hrest _)
    have hle := Mark.le_start_of_mem_placedFrom ht
    have hpos : Text.byteSize mark.text ≠ 0 := fun h0 => hmark (Text.byteSize_eq_zero.1 h0)
    simp only [Place.offset_past, Mark.placed] at hle ⊢
    omega

/-- Blocks are listed by the tags that begin them. -/
theorem map_snd_blocks {f : Forest} (h : f.Matched) :
    f.blocks.map Prod.snd = f.tags.filter (!·.isClosing) := by
  induction f with
  | nil => rfl
  | single mark after rest ih => simp [blocks, Tag.isClosing, h.1, ih h.2]
  | pair start inside body finish after rest ihb ihr =>
    obtain ⟨hs, hf, -, hb, hr⟩ := h
    simp [blocks, Tag.isClosing, hs, hf, ihb hb, ihr hr]

/-- A block is begun by a tag that is no end tag. -/
theorem exists_mem_blocks_iff {f : Forest} (h : f.Matched) {P : Tag → Prop} :
    (∃ b ∈ f.blocks, P b.2) ↔ ∃ tag ∈ f.tags, tag.isClosing = false ∧ P tag := by
  have hmem (tag : Tag) :
      tag ∈ f.blocks.map Prod.snd ↔ tag ∈ f.tags ∧ tag.isClosing = false := by
    rw [map_snd_blocks h, List.mem_filter, Bool.not_eq_true']
  constructor
  · rintro ⟨b, hb, hP⟩
    obtain ⟨hm, hk⟩ := (hmem b.2).1 (List.mem_map_of_mem hb)
    exact ⟨b.2, hm, hk, hP⟩
  · rintro ⟨tag, hm, hk, hP⟩
    obtain ⟨b, hb, rfl⟩ := List.mem_map.1 ((hmem tag).2 ⟨hm, hk⟩)
    exact ⟨b, hb, hP⟩

theorem pairwise_blocks {f : Forest} (h : f.Matched) {p : Place}
    (htexts : ∀ piece ∈ f.pieces, piece.1.text ≠ [])
    (htags : Mark.placedFrom p f.pieces = f.tags) :
    (f.blocks.map Prod.snd).Pairwise fun s t => s.span.start < t.span.start := by
  rw [map_snd_blocks h, ← htags]
  exact (pairwise_placedFrom htexts p).filter _

/-! ## Counting what comes first -/

theorem countP_or {α : Type} (p q : α → Bool) {items : List α}
    (h : ∀ a ∈ items, p a → q a = false) :
    items.countP (fun a => p a || q a) = items.countP p + items.countP q := by
  induction items with
  | nil => rfl
  | cons a items ih =>
    obtain ⟨ha, hitems⟩ := List.forall_mem_cons.1 h
    have hrest := ih hitems
    cases hp : p a with
    | false =>
      cases hq : q a with
      | false => simp [hp, hq, hrest]
      | true =>
        simp [hp, hq, hrest]
        omega
    | true =>
      simp [hp, ha hp, hrest]
      omega

/-- In a list with rising keys the items with lower keys are those in front. -/
theorem map_countP_lt {α : Type} {key : α → Nat} {items : List α}
    (h : items.Pairwise fun a b => key a < key b) :
    (items.map fun a => items.countP (key · < key a)) = List.range items.length := by
  induction items with
  | nil => rfl
  | cons a items ih =>
    obtain ⟨ha, hitems⟩ := List.pairwise_cons.1 h
    have hfirst : items.countP (key · < key a) = 0 := by
      rw [List.countP_eq_zero]
      intro b hb
      have hlt := ha b hb
      simp only [decide_eq_true_eq]
      omega
    have hrest : (items.map fun b => (a :: items).countP (key · < key b)) =
        (items.map fun b => items.countP (key · < key b)).map Nat.succ := by
      rw [List.map_map]
      refine List.map_congr_left fun b hb => ?_
      simp [ha b hb]
    rw [List.map_cons, hrest, ih hitems, List.length_cons, List.range_succ_eq_map]
    simp [hfirst]

/-- The numbers of the blocks of one height. -/
theorem map_number {f : Forest}
    (h : (f.blocks.map Prod.snd).Pairwise fun s t => s.span.start < t.span.start) (height : Nat) :
    ((f.blocks.filter (·.1 == height)).map Prod.snd).map (f.number height) =
      List.range' (f.blocks.countP (·.1 < height) + 1) (f.blocks.countP (·.1 == height)) := by
  let same := (f.blocks.filter (·.1 == height)).map Prod.snd
  have hsorted : same.Pairwise fun s t => s.span.start < t.span.start :=
    h.sublist (List.filter_sublist.map Prod.snd)
  have hnumber (tag : Tag) : f.number height tag =
      f.blocks.countP (·.1 < height) + 1 + same.countP (·.span.start < tag.span.start) := by
    have hdisjoint : ∀ b ∈ f.blocks, decide (b.1 < height) →
        (b.1 == height && decide (b.2.span.start < tag.span.start)) = false := by
      intro b _ hb
      have hne : b.1 ≠ height := Nat.ne_of_lt (of_decide_eq_true hb)
      simp [hne]
    have hsame : same.countP (·.span.start < tag.span.start) = f.blocks.countP fun b =>
        b.1 == height && decide (b.2.span.start < tag.span.start) := by
      simp only [same, List.countP_map, List.countP_filter, Function.comp_def, Bool.and_comm]
    rw [number, countP_or _ _ hdisjoint, hsame, Nat.add_comm 1, Nat.add_right_comm]
  have hlength : same.length = f.blocks.countP (·.1 == height) := by
    simp only [same, List.length_map, List.countP_eq_length_filter]
  calc same.map (f.number height)
      = (same.map fun tag => same.countP (·.span.start < tag.span.start)).map
          (f.blocks.countP (·.1 < height) + 1 + ·) := by
        rw [List.map_map (l := same)]
        exact List.map_congr_left fun tag _ => hnumber tag
    _ = List.range' (f.blocks.countP (·.1 < height) + 1) (f.blocks.countP (·.1 == height)) := by
        rw [map_countP_lt hsorted, hlength, List.range'_eq_map_range]

theorem perm_map_number_le {f : Forest}
    (h : (f.blocks.map Prod.snd).Pairwise fun s t => s.span.start < t.span.start) (k : Nat) :
    ((f.blocks.filter (·.1 ≤ k)).map fun b => f.number b.1 b.2).Perm
      (List.range' 1 (f.blocks.filter (·.1 ≤ k)).length) := by
  induction k with
  | zero =>
    have hnone : f.blocks.filter (·.1 ≤ 0) = [] := by
      rw [List.filter_eq_nil_iff]
      intro b hb
      have hpos := one_le_of_mem_blocks hb
      rw [decide_eq_true_eq]
      omega
    rw [hnone]
    exact .refl []
  | succ k ih =>
    let lower := f.blocks.filter (·.1 ≤ k)
    let next := f.blocks.filter (·.1 == k + 1)
    have hsplit : (lower ++ next).Perm (f.blocks.filter (·.1 ≤ k + 1)) := by
      have hlower : (f.blocks.filter (·.1 ≤ k + 1)).filter (·.1 ≤ k) = lower := by
        rw [List.filter_filter]
        exact List.filter_congr fun b _ => by grind
      have hnext : (f.blocks.filter (·.1 ≤ k + 1)).filter (fun b => !decide (b.1 ≤ k)) = next := by
        rw [List.filter_filter]
        exact List.filter_congr fun b _ => by grind
      rw [← hlower, ← hnext]
      exact List.filter_append_perm ..
    have hnext : (next.map fun b => f.number b.1 b.2) =
        List.range' (lower.length + 1) next.length := by
      have hnumbers := map_number h (k + 1)
      have hlower : f.blocks.countP (·.1 < k + 1) = lower.length := by
        simp only [lower, List.countP_eq_length_filter, Nat.lt_succ_iff]
      rw [hlower, List.countP_eq_length_filter, List.map_map] at hnumbers
      rw [← hnumbers]
      refine List.map_congr_left fun b hb => ?_
      rw [Function.comp_apply, ← beq_iff_eq.1 (List.mem_filter.1 hb).2]
    refine (hsplit.map _).symm.trans ?_
    rw [← hsplit.length_eq, List.length_append, ← List.range'_append_1, List.map_append, hnext,
      Nat.add_comm 1]
    exact ih.append_right _

theorem perm_map_number {f : Forest}
    (h : (f.blocks.map Prod.snd).Pairwise fun s t => s.span.start < t.span.start) :
    (f.blocks.map fun b => f.number b.1 b.2).Perm (List.range' 1 f.blocks.length) := by
  have hall : f.blocks.filter (·.1 ≤ f.height) = f.blocks := by
    rw [List.filter_eq_self]
    intro b hb
    exact decide_eq_true (le_height_of_mem_blocks hb)
  have hperm := perm_map_number_le h f.height
  rwa [hall] at hperm

end Forest

end ComponentTags
