import ComponentTags.Expander

/-!
# Runs

What an expansion does step by step: a step is one pass that replaces leaf blocks, and a run is any
number of steps. A text at which there is no step halts the expansion, either because no block is
left or because of an error. An expansion is the run up to such a text, and there is one since every
step lowers the number of `<`.
-/

namespace ComponentTags

namespace Expander

/-- One pass over a text that has a leaf block. -/
inductive Step : Expander → Text → Expander → Text → Prop where
  | pass {x y : Expander} {source next : Text} {blocks : List Block} :
      Block.leaves source = .ok blocks → blocks ≠ [] → x.pass source blocks = (y, .ok next) →
      Step x source y next

/-- A number of steps. -/
inductive Steps : Expander → Text → Nat → Expander → Text → Prop where
  | refl (x : Expander) (source : Text) : Steps x source 0 x source
  | cons {x y z : Expander} {source next last : Text} {n : Nat} :
      Step x source y next → Steps y next n z last → Steps x source (n + 1) z last

theorem Steps.snoc {x y z : Expander} {source next last : Text} {n : Nat}
    (h : Steps x source n y next) (hstep : Step y next z last) :
    Steps x source (n + 1) z last := by
  induction h with
  | refl => exact .cons hstep (.refl _ _)
  | cons hfirst _ ih => exact .cons hfirst (ih hstep)

/-- What is left behind at a text without a step, after the given number of them. -/
inductive Halts (x : Expander) (source : Text) (passes : Nat) : Result → Prop where
  | invalid {e : Error} :
      Block.leaves source = .error e → Halts x source passes ⟨x, source, .error e⟩
  | done : Block.leaves source = .ok [] → Halts x source passes ⟨x, source, .ok passes⟩
  | unknown {blocks : List Block} {y : Expander} {e : Error} :
      Block.leaves source = .ok blocks → x.pass source blocks = (y, .error e) →
      Halts x source passes ⟨y, source, .error e⟩

/-! ## Expansion as a run -/

theorem expandFrom_eq (x : Expander) (passes : Nat) (source : Text) :
    x.expandFrom passes source =
      match Block.leaves source with
      | .error e => ⟨x, source, .error e⟩
      | .ok [] => ⟨x, source, .ok passes⟩
      | .ok (block :: blocks) =>
        match x.pass source (block :: blocks) with
        | (y, .error e) => ⟨y, source, .error e⟩
        | (y, .ok next) => y.expandFrom (passes + 1) next := by
  rw [expandFrom]
  split
  · next hl => rw [hl]
  · next hl => rw [hl]
  · next hl => split <;> next hp => simp only [hl, hp]

theorem expandFrom_of_step {x y : Expander} {source next : Text} (h : Step x source y next)
    (passes : Nat) : x.expandFrom passes source = y.expandFrom (passes + 1) next := by
  obtain ⟨hl, hne, hp⟩ := h
  obtain ⟨block, blocks, rfl⟩ := List.exists_cons_of_ne_nil hne
  simp only [expandFrom_eq x, hl, hp]

theorem expandFrom_of_halts {x : Expander} {source : Text} {passes : Nat} {r : Result}
    (h : Halts x source passes r) : x.expandFrom passes source = r := by
  cases h with
  | invalid hl => rw [expandFrom_eq, hl]
  | done hl => rw [expandFrom_eq, hl]
  | @unknown blocks y e hl hp =>
    cases blocks with
    | nil => simp [pass] at hp
    | cons block blocks => simp only [expandFrom_eq x, hl, hp]

theorem expandFrom_of_steps {x y : Expander} {source last : Text} {n : Nat}
    (h : Steps x source n y last) (passes : Nat) :
    x.expandFrom passes source = y.expandFrom (passes + n) last := by
  induction h generalizing passes with
  | refl => rfl
  | cons hstep _ ih => rw [expandFrom_of_step hstep, ih, Nat.add_right_comm, Nat.add_assoc]

/-- An expansion runs up to a text that halts it. -/
theorem exists_steps_halts (x : Expander) (source : Text) (passes : Nat) :
    ∃ n y last, Steps x source n y last ∧
      Halts y last (passes + n) (x.expandFrom passes source) := by
  fun_induction expandFrom x passes source with
  | case1 x passes source e hl => exact ⟨0, x, source, .refl x source, .invalid hl⟩
  | case2 x passes source hl => exact ⟨0, x, source, .refl x source, .done hl⟩
  | case3 x passes source block blocks hl y e hp =>
    exact ⟨0, x, source, .refl x source, .unknown hl hp⟩
  | case4 x passes source block blocks hl y next hp _ ih =>
    obtain ⟨n, z, last, hsteps, hhalts⟩ := ih
    refine ⟨n + 1, z, last, .cons (.pass hl (by simp) hp) hsteps, ?_⟩
    rwa [Nat.add_right_comm, Nat.add_assoc] at hhalts

end Expander

end ComponentTags
