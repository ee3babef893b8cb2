import ComponentTags.Proofs.Forest

/-!
# Reduced forests

A forest in which the blocks up to some height have become text. What is left is a forest again,
whose blocks are the higher ones, lowered by that height. Reducing it further is reducing the first
one by both heights.
-/

namespace ComponentTags

namespace Forest

/-- The text in front of the first block that is left and the forest from there on, after the blocks
of height at most `k` have been replaced by their calls. -/
def reduce (number : Nat → Tag → Nat) (k : Nat) : Forest → Text × Forest
  | nil => ([], nil)
  | single mark after rest =>
    let rest' := rest.reduce number k
    if 1 ≤ k then
      (Call.ofBlock (number 1 mark.tag) (.ofSelfClosing mark.tag) ++ (after ++ rest'.1), rest'.2)
    else ([], single mark (after ++ rest'.1) rest'.2)
  | pair start inside body finish after rest =>
    let body' := body.reduce number k
    let rest' := rest.reduce number k
    if body.height + 1 ≤ k then
      (Call.ofBlock (number (body.height + 1) start.tag)
          (.enclosing start.tag finish.tag (inside ++ body'.1)) ++ (after ++ rest'.1), rest'.2)
    else ([], pair start (inside ++ body'.1) body'.2 finish (after ++ rest'.1) rest'.2)

variable {number : Nat → Tag → Nat} {k : Nat}

theorem reduce_single (hk : 1 ≤ k) (mark : Mark) (after : Text) (rest : Forest) :
    (single mark after rest).reduce number k =
      (Call.ofBlock (number 1 mark.tag) (.ofSelfClosing mark.tag) ++
        (after ++ (rest.reduce number k).1), (rest.reduce number k).2) :=
  if_pos hk

theorem keep_single (hk : k < 1) (mark : Mark) (after : Text) (rest : Forest) :
    (single mark after rest).reduce number k =
      ([], single mark (after ++ (rest.reduce number k).1) (rest.reduce number k).2) :=
  if_neg (Nat.not_le.2 hk)

theorem reduce_pair {body : Forest} (hk : body.height + 1 ≤ k) (start : Mark) (inside : Text)
    (finish : Mark) (after : Text) (rest : Forest) :
    (pair start inside body finish after rest).reduce number k =
      (Call.ofBlock (number (body.height + 1) start.tag)
          (.enclosing start.tag finish.tag (inside ++ (body.reduce number k).1)) ++
        (after ++ (rest.reduce number k).1), (rest.reduce number k).2) :=
  if_pos hk

theorem keep_pair {body : Forest} (hk : k < body.height + 1) (start : Mark) (inside : Text)
    (finish : Mark) (after : Text) (rest : Forest) :
    (pair start inside body finish after rest).reduce number k =
      ([], pair start (inside ++ (body.reduce number k).1) (body.reduce number k).2 finish
        (after ++ (rest.reduce number k).1) (rest.reduce number k).2) :=
  if_neg (Nat.not_le.2 hk)

theorem reduce_zero (f : Forest) : f.reduce number 0 = ([], f) := by
  induction f with
  | nil => rfl
  | single mark after rest ih => rw [keep_single (Nat.zero_lt_one), ih, List.append_nil]
  | pair start inside body finish after rest ihb ihr =>
    rw [keep_pair (Nat.zero_lt_succ _), ihb, ihr, List.append_nil, List.append_nil]

theorem eq_nil_of_height {f : Forest} (h : f.height = 0) : f = nil := by
  cases f with
  | nil => rfl
  | single => simp only [height] at h; omega
  | pair => simp only [height] at h; omega

theorem height_reduce (f : Forest) : (f.reduce number k).2.height = f.height - k := by
  induction f with
  | nil => exact (Nat.zero_sub k).symm
  | single mark after rest ih =>
    rcases Nat.lt_or_ge k 1 with hk | hk
    · rw [keep_single hk]
      simp only [height, ih]
      omega
    · rw [reduce_single hk, ih]
      simp only [height]
      omega
  | pair start inside body finish after rest ihb ihr =>
    rcases Nat.lt_or_ge k (body.height + 1) with hk | hk
    · rw [keep_pair hk]
      simp only [height, ihb, ihr]
      omega
    · rw [reduce_pair hk, ihr]
      simp only [height]
      omega

/-- Nothing is left of a forest that is not higher than `k`. -/
theorem reduce_eq_nil {f : Forest} (h : f.height ≤ k) : (f.reduce number k).2 = nil := by
  apply eq_nil_of_height
  rw [height_reduce]
  omega

theorem le_height_of_mem_blocks {f : Forest} {b : Nat × Tag} (h : b ∈ f.blocks) :
    b.1 ≤ f.height := by
  induction f with
  | nil => cases h
  | single mark after rest ih =>
    simp only [height]
    rcases List.mem_cons.1 h with rfl | h
    · exact Nat.le_max_left ..
    · have hle := ih h
      omega
  | pair start inside body finish after rest ihb ihr =>
    simp only [height]
    rcases List.mem_cons.1 h with rfl | h
    · exact Nat.le_max_left ..
    · rcases List.mem_append.1 h with h | h
      · have hle := ihb h
        omega
      · have hle := ihr h
        omega

theorem one_le_of_mem_blocks {f : Forest} {b : Nat × Tag} (h : b ∈ f.blocks) : 1 ≤ b.1 := by
  induction f with
  | nil => cases h
  | single mark after rest ih =>
    rcases List.mem_cons.1 h with rfl | h
    · exact Nat.le_refl 1
    · exact ih h
  | pair start inside body finish after rest ihb ihr =>
    rcases List.mem_cons.1 h with rfl | h
    · exact Nat.le_add_left ..
    · exact (List.mem_append.1 h).elim ihb ihr

/-- There are blocks of every height up to that of the forest. -/
theorem exists_mem_blocks {f : Forest} {h : Nat} (hpos : 1 ≤ h) (hle : h ≤ f.height) :
    ∃ b ∈ f.blocks, b.1 = h := by
  induction f with
  | nil =>
    simp only [height] at hle
    omega
  | single mark after rest ih =>
    simp only [height] at hle
    by_cases hrest : h ≤ rest.height
    · obtain ⟨b, hb, rfl⟩ := ih hrest
      exact ⟨b, List.mem_cons_of_mem _ hb, rfl⟩
    · refine ⟨_, List.mem_cons_self, ?_⟩
      simp only
      omega
  | pair start inside body finish after rest ihb ihr =>
    simp only [height] at hle
    by_cases hrest : h ≤ rest.height
    · obtain ⟨b, hb, rfl⟩ := ihr hrest
      exact ⟨b, List.mem_cons_of_mem _ (List.mem_append_right _ hb), rfl⟩
    · by_cases hbody : h ≤ body.height
      · obtain ⟨b, hb, rfl⟩ := ihb hbody
        exact ⟨b, List.mem_cons_of_mem _ (List.mem_append_left _ hb), rfl⟩
      · refine ⟨_, List.mem_cons_self, ?_⟩
        simp only
        omega

theorem blocks_reduce (f : Forest) : (f.reduce number k).2.blocks =
    (f.blocks.filter (k < ·.1)).map fun b => (b.1 - k, b.2) := by
  induction f with
  | nil => rfl
  | single mark after rest ih =>
    rcases Nat.lt_or_ge k 1 with hk | hk
    · obtain rfl : k = 0 := by omega
      simp [keep_single, blocks, ih]
    · rw [reduce_single hk, ih, blocks, List.filter_cons_of_neg]
      simpa using Nat.ne_of_gt hk
  | pair start inside body finish after rest ihb ihr =>
    rcases Nat.lt_or_ge k (body.height + 1) with hk | hk
    · rw [keep_pair hk, blocks, blocks, ihb, ihr, height_reduce, List.filter_cons_of_pos]
      · simp only [List.map_cons, List.filter_append, List.map_append]
        rw [Nat.sub_add_comm (by omega)]
      · simpa using hk
    · have hbody : body.blocks.filter (k < ·.1) = [] := by
        rw [List.filter_eq_nil_iff]
        intro b hb
        have hle := le_height_of_mem_blocks hb
        simp only [decide_eq_true_eq]
        omega
      rw [reduce_pair hk, ihr, blocks, List.filter_cons_of_neg, List.filter_append, hbody,
        List.nil_append]
      simpa using hk

theorem matched_reduce {f : Forest} (h : f.Matched) : (f.reduce number k).2.Matched := by
  induction f with
  | nil => trivial
  | single mark after rest ih =>
    rcases Nat.lt_or_ge k 1 with hk | hk
    · rw [keep_single hk]
      exact ⟨h.1, ih h.2⟩
    · rw [reduce_single hk]
      exact ih h.2
  | pair start inside body finish after rest ihb ihr =>
    obtain ⟨hs, hf, hn, hb, hr⟩ := h
    rcases Nat.lt_or_ge k (body.height + 1) with hk | hk
    · rw [keep_pair hk]
      exact ⟨hs, hf, hn, ihb hb, ihr hr⟩
    · rw [reduce_pair hk]
      exact ihr hr

/-- Only the numbers of the blocks that are replaced matter. -/
theorem reduce_congr {number' : Nat → Tag → Nat} {f : Forest}
    (h : ∀ height, 1 ≤ height → height ≤ k → number height = number' height) :
    f.reduce number k = f.reduce number' k := by
  induction f with
  | nil => rfl
  | single mark after rest ih =>
    rcases Nat.lt_or_ge k 1 with hk | hk
    · rw [keep_single hk, keep_single hk, ih]
    · rw [reduce_single hk, reduce_single hk, ih, h 1 (Nat.le_refl 1) hk]
  | pair start inside body finish after rest ihb ihr =>
    rcases Nat.lt_or_ge k (body.height + 1) with hk | hk
    · rw [keep_pair hk, keep_pair hk, ihb, ihr]
    · rw [reduce_pair hk, reduce_pair hk, ihb, ihr, h _ (Nat.le_add_left ..) hk]

/-- Reducing twice is reducing once by the sum. -/
theorem reduce_add (j : Nat) (f : Forest) :
    f.reduce number (k + j) =
      ((f.reduce number k).1 ++
          ((f.reduce number k).2.reduce (fun height => number (height + k)) j).1,
        ((f.reduce number k).2.reduce (fun height => number (height + k)) j).2) := by
  induction f with
  | nil => rfl
  | single mark after rest ih =>
    rcases Nat.lt_or_ge k 1 with hk | hk
    · obtain rfl : k = 0 := by omega
      rcases Nat.lt_or_ge j 1 with hj | hj
      · rw [keep_single hk, keep_single hj, keep_single (by omega), ih]
        simp
      · rw [keep_single hk, reduce_single hj, reduce_single (by omega), ih]
        simp
    · rw [reduce_single hk, reduce_single (by omega), ih]
      simp
  | pair start inside body finish after rest ihb ihr =>
    rcases Nat.lt_or_ge k (body.height + 1) with hk | hk
    · have hheight : (body.reduce number k).2.height + k = body.height := by
        rw [height_reduce]
        omega
      rcases Nat.lt_or_ge (k + j) (body.height + 1) with hj | hj
      · have hj' : j < (body.reduce number k).2.height + 1 := by omega
        simp only [keep_pair hj, keep_pair hk, keep_pair hj', ihb, ihr, List.append_assoc,
          List.nil_append]
      · have hj' : (body.reduce number k).2.height + 1 ≤ j := by omega
        simp only [reduce_pair hj, keep_pair hk, reduce_pair hj', ihb, ihr, List.append_assoc,
          List.nil_append, Nat.add_right_comm _ 1, hheight]
    · -- nothing is left of the body after the first reduction
      rw [reduce_eq_nil (by omega)] at ihb
      rw [reduce_pair hk, reduce_pair (by omega), ihb, ihr]
      simp [reduce]

/-! ## The texts of a reduced forest -/

theorem replaceBelow_eq (f : Forest) : f.replaceBelow number (k + 1) =
    (f.reduce number k).1 ++ (f.reduce number k).2.text := by
  induction f with
  | nil => rfl
  | single mark after rest ih =>
    rcases Nat.lt_or_ge k 1 with hk | hk
    · rw [keep_single hk, replaceBelow, if_neg (by omega), ih]
      simp
    · rw [reduce_single hk, replaceBelow, if_pos (by omega), ih]
      simp
  | pair start inside body finish after rest ihb ihr =>
    rcases Nat.lt_or_ge k (body.height + 1) with hk | hk
    · rw [keep_pair hk, replaceBelow, if_neg (by omega), ihb, ihr]
      simp
    · rw [reduce_eq_nil (by omega)] at ihb
      rw [reduce_pair hk, replaceBelow, if_pos (by omega), ihb, ihr]
      simp

theorem replaceBelow_eq_translate {f : Forest} (h : f.height < k) :
    f.replaceBelow number k = f.translate number := by
  induction f with
  | nil => rfl
  | single mark after rest ih =>
    simp only [height] at h
    rw [replaceBelow, translate, if_pos (by omega), ih (by omega)]
  | pair start inside body finish after rest ihb ihr =>
    simp only [height] at h
    rw [replaceBelow, translate, if_pos (by omega), ihb (by omega), ihr (by omega)]

end Forest

end ComponentTags
