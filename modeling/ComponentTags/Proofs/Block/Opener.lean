import Mathlib.Data.List.Induction
import Mathlib.Data.Nat.SuccPred
import ComponentTags.Block.Pairing

/-!
# The walk backward

The start tag that an end tag closes is found from the right, by counting the end tags that are
still to be matched. Seen from the left it is the top of a stack, on which the start tags of that
name are put and from which the end tags of that name take one off. The two agree on tags that do
not nest as well: an end tag that finds the stack empty is forgotten there, and the walk never gets
past it with nothing pending.
-/

namespace ComponentTags

namespace Pairing

/-! ## The stack of one name -/

/-- What a tag at a position does to the open positions of the name of `finish`. -/
def openedBy (finish : Tag) (stack : List Nat) (entry : Tag × Nat) : List Nat :=
  if entry.1.sameName finish then
    match entry.1.kind with
    | .opening => entry.2 :: stack
    | .closing => stack.tail
    | .selfClosing => stack
  else stack

/-- The positions of the start tags with the name of `finish` that are open after all tags, the
latest first. -/
def openPositions (finish : Tag) (tags : List Tag) : List Nat :=
  tags.zipIdx.foldl (openedBy finish) []

variable {finish tag : Tag} {tags : List Tag} {n p i : Nat}

theorem openPositions_concat (finish : Tag) (tags : List Tag) (tag : Tag) :
    openPositions finish (tags ++ [tag]) =
      openedBy finish (openPositions finish tags) (tag, tags.length) := by
  simp [openPositions, List.zipIdx_append]

theorem openerBefore_concat (finish : Tag) (p : Nat) (tags : List Tag) (tag : Tag) :
    openerBefore finish p (tags ++ [tag]).zipIdx.reverse =
      openerBefore finish p ((tag, tags.length) :: tags.zipIdx.reverse) := by
  simp [List.zipIdx_append]

/-- A tag of another name, or a self-closing one, is walked past. -/
theorem openerBefore_skip (h : tag.sameName finish = false ∨ tag.kind = .selfClosing) (i : Nat)
    (earlier : List (Tag × Nat)) :
    openerBefore finish p ((tag, i) :: earlier) = openerBefore finish p earlier := by
  rcases h with h | h <;> simp [openerBefore, Tag.isSelfClosing, h]

theorem openerBefore_closing (hname : tag.sameName finish) (hk : tag.kind = .closing) (i : Nat)
    (earlier : List (Tag × Nat)) :
    openerBefore finish p ((tag, i) :: earlier) = openerBefore finish (p + 1) earlier := by
  simp [openerBefore, Tag.isSelfClosing, Tag.isClosing, hname, hk]

theorem openerBefore_opening (hname : tag.sameName finish) (hk : tag.kind = .opening) (i : Nat)
    (earlier : List (Tag × Nat)) :
    openerBefore finish p ((tag, i) :: earlier) =
      match p with
      | 0 => some i
      | p + 1 => openerBefore finish p earlier := by
  cases p <;> simp [openerBefore, Tag.isSelfClosing, Tag.isClosing, hname, hk]

/-- With `p` end tags pending the walk ends at entry number `p` of the stack. -/
theorem openerBefore_eq_getElem? (finish : Tag) (p : Nat) (tags : List Tag) :
    openerBefore finish p tags.zipIdx.reverse = (openPositions finish tags)[p]? := by
  induction tags using List.reverseRecOn generalizing p with
  | nil => rfl
  | append_singleton tags tag ih =>
    rw [openerBefore_concat, openPositions_concat, openedBy]
    cases hname : tag.sameName finish with
    | false => simp [openerBefore_skip (.inl hname), ih]
    | true =>
      cases hk : tag.kind with
      | selfClosing => simp [openerBefore_skip (.inr hk), ih]
      | closing => simp [openerBefore_closing hname hk, ih]
      | opening => cases p <;> simp [openerBefore_opening hname hk, ih]

theorem opener?_eq_head? (finish : Tag) (tags : List Tag) :
    opener? finish tags = (openPositions finish tags).head? := by
  rw [opener?, openerBefore_eq_getElem?, List.head?_eq_getElem?]

/-! ## Counting from a position on -/

/-- A tag of one form with the name of `finish`. -/
def isOf (finish : Tag) (kind : Tag.Kind) (tag : Tag) : Bool :=
  tag.sameName finish && tag.kind == kind

/-- At a position stands a start tag with the name of `finish`, and from there on the start tags of
that name outnumber its end tags by `n`. -/
@[mk_iff]
structure Exceeds (finish : Tag) (n : Nat) (tags : List Tag) (i : Nat) : Prop where
  start : ∃ tag, tags[i]? = some tag ∧ isOf finish .opening tag
  count : (tags.drop i).countP (isOf finish .opening) =
    (tags.drop i).countP (isOf finish .closing) + n

theorem Exceeds.lt_length (h : Exceeds finish n tags i) : i < tags.length := by
  obtain ⟨tag, htag, -⟩ := h.start
  exact (List.getElem?_eq_some_iff.1 htag).1

/-- What the last tag changes in the counts from an earlier position on. -/
theorem exceeds_concat_of_lt (hi : i < tags.length) :
    Exceeds finish n (tags ++ [tag]) i ↔
      (∃ start, tags[i]? = some start ∧ isOf finish .opening start) ∧
        (tags.drop i).countP (isOf finish .opening) + [tag].countP (isOf finish .opening) =
          (tags.drop i).countP (isOf finish .closing) + [tag].countP (isOf finish .closing) +
            n := by
  have hdrop : (tags ++ [tag]).drop i = tags.drop i ++ [tag] :=
    List.drop_append_of_le_length (Nat.le_of_lt hi)
  have hget : (tags ++ [tag])[i]? = tags[i]? := List.getElem?_append_left hi
  constructor
  · rintro ⟨hstart, hcount⟩
    rw [hdrop, List.countP_append, List.countP_append] at hcount
    exact ⟨hget ▸ hstart, hcount⟩
  · rintro ⟨hstart, hcount⟩
    refine ⟨hget ▸ hstart, ?_⟩
    rwa [hdrop, List.countP_append, List.countP_append]

theorem exceeds_concat_length :
    Exceeds finish n (tags ++ [tag]) tags.length ↔ isOf finish .opening tag ∧ n = 1 := by
  have hget : (tags ++ [tag])[tags.length]? = some tag := by simp
  have hdrop : (tags ++ [tag]).drop tags.length = [tag] := by simp
  have hboth : isOf finish .opening tag → isOf finish .closing tag = false := by
    simp +contextual [isOf]
  constructor
  · rintro ⟨⟨start, hstart, hopening⟩, hcount⟩
    obtain rfl := Option.some.inj (hget.symm.trans hstart)
    rw [hdrop] at hcount
    simp [hopening, hboth hopening] at hcount
    exact ⟨hopening, hcount.symm⟩
  · rintro ⟨hopening, rfl⟩
    refine ⟨⟨tag, hget, hopening⟩, ?_⟩
    rw [hdrop]
    simp [hopening, hboth hopening]

theorem exceeds_concat :
    Exceeds finish n (tags ++ [tag]) i ↔
      (i = tags.length ∧ isOf finish .opening tag ∧ n = 1) ∨
        (∃ start, tags[i]? = some start ∧ isOf finish .opening start) ∧
          (tags.drop i).countP (isOf finish .opening) + [tag].countP (isOf finish .opening) =
            (tags.drop i).countP (isOf finish .closing) + [tag].countP (isOf finish .closing) +
              n := by
  rcases Nat.lt_trichotomy i tags.length with hi | rfl | hi
  · simp [exceeds_concat_of_lt hi, Nat.ne_of_lt hi]
  · simp [exceeds_concat_length]
  · have hout : ¬Exceeds finish n (tags ++ [tag]) i := by
      intro h
      have := h.lt_length
      simp only [List.length_append, List.length_singleton] at this
      omega
    simp [hout, Nat.ne_of_gt hi, List.getElem?_eq_none (Nat.le_of_lt hi)]

theorem exceeds_concat_skip (h : tag.sameName finish = false ∨ tag.kind = .selfClosing) :
    Exceeds finish n (tags ++ [tag]) i ↔ Exceeds finish n tags i := by
  have hnone (kind : Tag.Kind) (hkind : kind ≠ .selfClosing) : isOf finish kind tag = false := by
    rcases h with h | h
    · simp [isOf, h]
    · simp [isOf, h, hkind.symm]
  have hopening := hnone .opening (by decide)
  have hclosing := hnone .closing (by decide)
  rw [exceeds_concat, exceeds_iff]
  simp [hopening, hclosing]

theorem exceeds_concat_closing (hname : tag.sameName finish) (hk : tag.kind = .closing) :
    Exceeds finish n (tags ++ [tag]) i ↔ Exceeds finish (n + 1) tags i := by
  have hopening : isOf finish .opening tag = false := by simp [isOf, hk]
  have hclosing : isOf finish .closing tag := by simp [isOf, hname, hk]
  rw [exceeds_concat, exceeds_iff]
  simp [hopening, hclosing, Nat.add_assoc, Nat.add_comm 1]

theorem exceeds_concat_opening (hname : tag.sameName finish) (hk : tag.kind = .opening) :
    Exceeds finish (n + 1) (tags ++ [tag]) i ↔
      (i = tags.length ∧ n = 0) ∨ Exceeds finish n tags i := by
  have hopening : isOf finish .opening tag := by simp [isOf, hname, hk]
  have hclosing : isOf finish .closing tag = false := by simp [isOf, hk]
  rw [exceeds_concat, exceeds_iff]
  simp [hopening, hclosing, ← Nat.add_assoc]

/-- With `p` end tags pending the walk ends at the last position from which on there are `p + 1`
more start tags than end tags. -/
theorem openerBefore_eq_some_iff :
    openerBefore finish p tags.zipIdx.reverse = some i ↔
      IsGreatest {j | Exceeds finish (p + 1) tags j} i := by
  induction tags using List.reverseRecOn generalizing p with
  | nil =>
    have hnone (j : Nat) : ¬Exceeds finish (p + 1) [] j := fun h => nomatch h.lt_length
    simp [openerBefore, hnone, IsGreatest]
  | append_singleton tags tag ih =>
    rw [openerBefore_concat]
    cases hname : tag.sameName finish with
    | false => simp only [openerBefore_skip (.inl hname), exceeds_concat_skip (.inl hname), ih]
    | true =>
      cases hk : tag.kind with
      | selfClosing => simp only [openerBefore_skip (.inr hk), exceeds_concat_skip (.inr hk), ih]
      | closing =>
        simp only [openerBefore_closing hname hk, exceeds_concat_closing hname hk, ih]
      | opening =>
        simp only [openerBefore_opening hname hk, exceeds_concat_opening hname hk]
        cases p with
        | succ p => simp [ih]
        | zero =>
          -- the start tag itself is the last such position, whatever stands before it
          have hlast : IsGreatest {j | (j = tags.length ∧ 0 = 0) ∨ Exceeds finish 0 tags j}
              tags.length := by
            refine ⟨.inl ⟨rfl, rfl⟩, ?_⟩
            rintro j (⟨rfl, -⟩ | hj)
            · exact Nat.le_refl _
            · exact Nat.le_of_lt hj.lt_length
          constructor
          · intro hi
            exact Option.some.inj hi ▸ hlast
          · intro hi
            exact congrArg some (hlast.unique hi)

theorem openerBefore_eq_none_iff :
    openerBefore finish p tags.zipIdx.reverse = none ↔ ∀ j, ¬Exceeds finish (p + 1) tags j := by
  constructor
  · intro hnone j hj
    have hbound : BddAbove {j | Exceeds finish (p + 1) tags j} :=
      ⟨tags.length, fun k hk => Nat.le_of_lt hk.lt_length⟩
    obtain ⟨i, hi⟩ := hbound.exists_isGreatest_of_nonempty ⟨j, hj⟩
    rw [openerBefore_eq_some_iff.2 hi] at hnone
    cases hnone
  · intro hnone
    rw [Option.eq_none_iff_forall_ne_some]
    intro i hi
    exact hnone i (openerBefore_eq_some_iff.1 hi).1

/-! ## The start tag that is found -/

/-- The walk finds the top of the stack on tags of any shape, and finds nothing exactly if the stack
is empty. What it finds is the last start tag of the name from which on there is exactly one more
start tag than there are end tags. -/
theorem opener?_eq_head?_and_isGreatest (finish : Tag) (tags : List Tag) :
    opener? finish tags = (openPositions finish tags).head? ∧
      (opener? finish tags = none ↔ openPositions finish tags = []) ∧
      (∀ i, opener? finish tags = some i ↔ IsGreatest {j | Exceeds finish 1 tags j} i) ∧
      (opener? finish tags = none ↔ ∀ j, ¬Exceeds finish 1 tags j) := by
  refine ⟨opener?_eq_head? finish tags, ?_, fun i => openerBefore_eq_some_iff,
    openerBefore_eq_none_iff⟩
  rw [opener?_eq_head?, List.head?_eq_none_iff]

/-- The first end tag closes nothing and is forgotten. -/
example : opener? ⟨['A'], .closing, [], ⟨11, 15⟩, 1⟩
    [⟨['A'], .closing, [], ⟨0, 4⟩, 1⟩, ⟨['a'], .opening, [], ⟨4, 7⟩, 1⟩,
      ⟨['A'], .selfClosing, [], ⟨7, 11⟩, 1⟩] = some 1 := by decide

end Pairing
end ComponentTags
