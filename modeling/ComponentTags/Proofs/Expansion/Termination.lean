import ComponentTags.Proofs.Block.Balance
import ComponentTags.Proofs.Expansion.Run

/-!
# Termination

Every run ends: a step takes away at least one `<` for each block that it replaces, since a call
holds no more of them than the values and the body of its block. Nothing else falls from step to
step: tags written inside values come up again once their block is replaced.
-/

namespace ComponentTags

theorem Tag.exists_keptFrom_of_placed {start line : Nat} {s : Text} {tags : List Tag}
    (h : Tag.Placed start line s tags) : ∀ tag ∈ tags, ∃ head, tag.KeptFrom head := by
  induction h with
  | nil => simp
  | cons _ _ hkept _ ih => exact List.forall_mem_cons.2 ⟨⟨_, hkept⟩, ih⟩

/-- A leaf block has the name and the attributes of a tag. -/
theorem Block.exists_tag_of_mem_leavesOfTags {source : Text} {tags : List Tag} {block : Block}
    (h : block ∈ leavesOfTags source tags) :
    ∃ tag ∈ tags, block.name = tag.name ∧ block.attributes = tag.attributes := by
  induction tags with
  | nil => simp [leavesOfTags] at h
  | cons tag rest ih =>
    rcases List.mem_append.1 h with h | h
    · refine ⟨tag, by simp, ?_⟩
      simp only [leaf?, Option.mem_toList] at h
      split at h
      · cases h
        exact ⟨rfl, rfl⟩
      · split at h
        · cases h
          exact ⟨rfl, rfl⟩
        · cases h
      · cases h
    · obtain ⟨tag', hm, h⟩ := ih h
      exact ⟨tag', List.mem_cons_of_mem tag hm, h⟩

theorem Block.count_ofBlock_le_of_leaves {source : Text} {blocks : List Block}
    (h : leaves source = .ok blocks) {block : Block} (hb : block ∈ blocks) (number : Nat) :
    (Call.ofBlock number block).count '<' ≤
      block.attributes.angles + block.body.count '<' := by
  obtain ⟨tags, ht, rfl⟩ := exists_of_leaves_eq_ok h
  obtain ⟨tag, hm, hname, hattributes⟩ := exists_tag_of_mem_leavesOfTags hb
  obtain ⟨head, hkept⟩ := Tag.exists_keptFrom_of_placed (Tag.placed_of_list ht) tag hm
  exact Call.count_ofBlock_le number block (hname ▸ hkept.name_chars)
    (hattributes ▸ hkept.key_chars)

namespace Expander

theorem Step.count_lt {x y : Expander} {source next : Text} (h : Step x source y next) :
    next.count '<' < source.count '<' := by
  obtain ⟨hl, hne, hp⟩ := h
  have hle := count_pass_le hl hp
  have hpos := List.length_pos_iff.2 hne
  omega

theorem Steps.add_count_le {x y : Expander} {source last : Text} {n : Nat}
    (h : Steps x source n y last) : n + last.count '<' ≤ source.count '<' := by
  induction h with
  | refl => exact Nat.le_of_eq (Nat.zero_add _)
  | cons hstep _ ih =>
    have hlt := hstep.count_lt
    omega

/-- Every expansion is a run that halts, of no more passes than the source has `<`. In every pass of
a run the number of `<` falls by the number of blocks at least. -/
theorem expand_terminates (x : Expander) (source : Text) :
    (∀ n y last, Steps x source n y last →
      n + last.count '<' ≤ source.count '<' ∧
      ∀ blocks z next, Block.leaves last = .ok blocks → y.pass last blocks = (z, .ok next) →
        (∀ block ∈ blocks, ∀ number, (Call.ofBlock number block).count '<' ≤
          block.attributes.angles + block.body.count '<') ∧
        next.count '<' + blocks.length ≤ last.count '<') ∧
    ∃ n y last, Steps x source n y last ∧ Halts y last n (x.expand source) ∧
      n ≤ source.count '<' := by
  constructor
  · intro n y last hsteps
    refine ⟨hsteps.add_count_le, fun blocks z next hl hp => ⟨?_, count_pass_le hl hp⟩⟩
    intro block hb number
    exact Block.count_ofBlock_le_of_leaves hl hb number
  · obtain ⟨n, y, last, hsteps, hhalts⟩ := exists_steps_halts x source 0
    rw [Nat.zero_add] at hhalts
    refine ⟨n, y, last, hsteps, hhalts, ?_⟩
    have hle := hsteps.add_count_le
    omega

end Expander

end ComponentTags
