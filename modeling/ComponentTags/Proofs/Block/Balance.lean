import ComponentTags.Block.Leaf
import ComponentTags.Proofs.Block.Nesting

/-!
# Balance

Tags are balanced if they are made of self-closing tags and of pairs around balanced tags. Those are
the tags that can be paired. The leaf blocks of balanced tags are found side by side and inside out,
and there is one as soon as there is a tag.
-/

namespace ComponentTags

inductive Balanced : List Tag → Prop where
  | nil : Balanced []
  | single {tag : Tag} {rest : List Tag} :
      tag.kind = .selfClosing → Balanced rest → Balanced (tag :: rest)
  | pair {start finish : Tag} {body rest : List Tag} :
      start.kind = .opening → finish.kind = .closing → start.sameName finish →
      Balanced body → Balanced rest → Balanced (start :: (body ++ finish :: rest))

namespace Balanced

theorem append {tags rest : List Tag} (h : Balanced tags) (hr : Balanced rest) :
    Balanced (tags ++ rest) := by
  induction h with
  | nil => exact hr
  | single hk _ ih => exact .single hk ih
  | pair hs hf hn hb _ _ ih =>
    rw [List.cons_append, List.append_assoc, List.cons_append]
    exact .pair hs hf hn hb ih

theorem head_kind {tag : Tag} {rest : List Tag} (h : Balanced (tag :: rest)) :
    tag.kind ≠ .closing := by
  cases h with
  | single hk => simp [hk]
  | pair hs => simp [hs]

/-! ## Balance and pairing -/

/-- Balanced tags between the start tags of a stack, and after them. -/
inductive Between : List Tag → List Tag → Prop where
  | nil {tags : List Tag} : Balanced tags → Between tags []
  | cons {tags body stack : List Tag} {start : Tag} :
      Between tags stack → start.kind = .opening → Balanced body →
      Between (tags ++ start :: body) (start :: stack)

theorem Between.append {tags stack rest : List Tag} (h : Between tags stack) (hr : Balanced rest) :
    Between (tags ++ rest) stack := by
  cases h with
  | nil hb => exact .nil (hb.append hr)
  | cons h hk hb =>
    rw [List.append_assoc, List.cons_append]
    exact .cons h hk (hb.append hr)

theorem between_of_nested {tags : List Tag} {stack : OpenTags} {pairs : List (Nat × Nat)}
    (h : Nested tags stack pairs) : Between tags (stack.map Prod.fst) := by
  induction h with
  | nil => exact .nil .nil
  | selfClosing _ hk ih => exact ih.append (.single hk .nil)
  | opening _ hk ih => exact .cons ih hk .nil
  | closing _ hk hs ih =>
    cases ih with
    | cons h hopen hb =>
      rw [List.append_assoc, List.cons_append]
      exact h.append (.pair hopen hk hs hb .nil)

theorem exists_nested {tags : List Tag} (h : Balanced tags) {before : List Tag} {stack : OpenTags}
    {pairs : List (Nat × Nat)} (hn : Nested before stack pairs) :
    ∃ pairs', Nested (before ++ tags) stack pairs' := by
  induction h generalizing before stack pairs with
  | nil => exact ⟨pairs, by rwa [List.append_nil]⟩
  | single hk _ ih =>
    rw [List.append_cons]
    exact ih (hn.selfClosing hk)
  | pair hs hf hname _ _ ihb ihr =>
    obtain ⟨pairs', hbody⟩ := ihb (hn.opening hs)
    obtain ⟨pairs'', hrest⟩ := ihr (hbody.closing hf hname)
    exact ⟨pairs'', by simpa using hrest⟩

/-- Tags can be paired exactly when they are balanced. -/
theorem exists_pairs_iff {tags : List Tag} :
    (∃ pairs, Tag.pairs tags = .ok pairs) ↔ Balanced tags := by
  constructor
  · rintro ⟨pairs, h⟩
    have hbetween := between_of_nested (Tag.pairs_eq_ok_iff.1 h)
    cases hbetween with
    | nil hb => exact hb
  · intro h
    obtain ⟨pairs, hn⟩ := h.exists_nested .nil
    exact ⟨pairs, Tag.pairs_eq_ok_iff.2 hn⟩

end Balanced

/-! ## Leaf blocks of balanced tags -/

namespace Block

theorem leavesOfTags_closing (source : Text) {tag : Tag} (rest : List Tag)
    (h : tag.kind = .closing) : leavesOfTags source (tag :: rest) = leavesOfTags source rest :=
  leavesOfTags_skip (by simp [leaf?, h])

/-- A start tag before other than its end tag begins no leaf. -/
theorem leavesOfTags_opening (source : Text) {tag : Tag} {body : List Tag} (rest : List Tag)
    (h : tag.kind = .opening) (hb : Balanced body) (hne : body ≠ []) :
    leavesOfTags source (tag :: (body ++ rest)) = leavesOfTags source (body ++ rest) := by
  cases body with
  | nil => exact absurd rfl hne
  | cons next body => exact leavesOfTags_skip (by simp [leaf?, h, Tag.isClosing, hb.head_kind])

theorem leavesOfTags_append (source : Text) {tags : List Tag} (h : Balanced tags)
    (rest : List Tag) :
    leavesOfTags source (tags ++ rest) = leavesOfTags source tags ++ leavesOfTags source rest := by
  induction h generalizing rest with
  | nil => rfl
  | single hk _ ih =>
    rw [List.cons_append, leavesOfTags_selfClosing _ _ hk, leavesOfTags_selfClosing _ _ hk, ih,
      List.cons_append]
  | @pair start finish body tail hs hf _ hb _ ihb ihr =>
    rw [List.cons_append, List.append_assoc, List.cons_append]
    by_cases hne : body = []
    · subst hne
      rw [List.nil_append, List.nil_append, leavesOfTags_pair _ _ hs hf,
        leavesOfTags_pair _ _ hs hf, ihr, List.cons_append]
    · rw [leavesOfTags_opening _ _ hs hb hne, leavesOfTags_opening _ _ hs hb hne, ihb, ihb,
        leavesOfTags_closing _ _ hf, leavesOfTags_closing _ _ hf, ihr, List.append_assoc]

theorem leavesOfTags_enclosing (source : Text) {start finish : Tag} {body : List Tag}
    (rest : List Tag) (hs : start.kind = .opening) (hf : finish.kind = .closing)
    (hb : Balanced body) (hne : body ≠ []) :
    leavesOfTags source (start :: (body ++ finish :: rest)) =
      leavesOfTags source body ++ leavesOfTags source rest := by
  rw [leavesOfTags_opening _ _ hs hb hne, leavesOfTags_append _ hb, leavesOfTags_closing _ _ hf]

/-- The leaf blocks of a source are those of its tags if these are balanced. -/
theorem leaves_eq_ok_iff {source : Text} {blocks : List Block} :
    leaves source = .ok blocks ↔
      ∃ tags, Tag.list source = .ok tags ∧ Balanced tags ∧ blocks = leavesOfTags source tags := by
  rw [leaves]
  cases Tag.list source with
  | error e => simp [bind, Except.bind]
  | ok tags =>
    cases hp : Tag.pairs tags with
    | error e =>
      have : ¬ Balanced tags := fun hb => by
        obtain ⟨pairs, h⟩ := Balanced.exists_pairs_iff.2 hb
        rw [hp] at h
        cases h
      simp [bind, Except.bind, hp, this]
    | ok pairs =>
      have : Balanced tags := Balanced.exists_pairs_iff.1 ⟨pairs, hp⟩
      simp [bind, Except.bind, pure, Except.pure, hp, this, eq_comm]

/-- Where there is a tag there is a leaf block: the innermost ones enclose no other tag. -/
theorem eq_nil_of_leavesOfTags_eq_nil {source : Text} {tags : List Tag} (h : Balanced tags)
    (hl : leavesOfTags source tags = []) : tags = [] := by
  induction h with
  | nil => rfl
  | single hk => simp [leavesOfTags_selfClosing _ _ hk] at hl
  | @pair start finish body rest hs hf _ hb _ ihb =>
    by_cases hne : body = []
    · simp [hne, leavesOfTags_pair _ _ hs hf] at hl
    · rw [leavesOfTags_enclosing _ _ hs hf hb hne, List.append_eq_nil_iff] at hl
      exact absurd (ihb hl.1) hne

end Block

end ComponentTags
