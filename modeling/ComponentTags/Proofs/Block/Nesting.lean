import ComponentTags.Proofs.Block.Opener

/-!
# Nesting

Pairing keeps a stack: the start tags that are still open, the latest first, each with its position.
The walk backward from an end tag finds the topmost entry of its name, and an entry above that one
is what makes a mismatch. So tags can be paired exactly when every end tag closes the top of the
stack and the stack is empty in the end.
-/

namespace ComponentTags

namespace Tag

theorem sameName_congr {s t : Tag} (h : s.sameName t) (u : Tag) :
    s.sameName u = t.sameName u := by
  simp only [sameName, Text.eqIgnoringCase, beq_iff_eq] at h ⊢
  rw [h]

end Tag

/-- Open start tags with their positions, the latest first. -/
abbrev OpenTags := List (Tag × Nat)

/-- The stack and the pairs after tags of which every end tag closes the top of the stack. -/
inductive Nested : List Tag → OpenTags → List (Nat × Nat) → Prop where
  | nil : Nested [] [] []
  | selfClosing {tags : List Tag} {stack : OpenTags} {pairs : List (Nat × Nat)} {tag : Tag} :
      Nested tags stack pairs → tag.kind = .selfClosing → Nested (tags ++ [tag]) stack pairs
  | opening {tags : List Tag} {stack : OpenTags} {pairs : List (Nat × Nat)} {tag : Tag} :
      Nested tags stack pairs → tag.kind = .opening →
      Nested (tags ++ [tag]) ((tag, tags.length) :: stack) pairs
  | closing {tags : List Tag} {stack : OpenTags} {pairs : List (Nat × Nat)} {start finish : Tag}
      {i : Nat} :
      Nested tags ((start, i) :: stack) pairs → finish.kind = .closing → start.sameName finish →
      Nested (tags ++ [finish]) stack (pairs ++ [(i, tags.length)])

namespace Pairing

/-! ## The walk backward -/

/-- The open positions of a name are those of its entries on the stack. -/
theorem openPositions_of_nested {tags : List Tag} {stack : OpenTags} {pairs : List (Nat × Nat)}
    (h : Nested tags stack pairs) (finish : Tag) :
    openPositions finish tags = (stack.filter (·.1.sameName finish)).map Prod.snd := by
  induction h with
  | nil => rfl
  | selfClosing _ hk ih => simp [openPositions_concat, openedBy, hk, ih]
  | @opening tags stack _ tag _ hk ih =>
    cases hn : tag.sameName finish <;> simp [openPositions_concat, openedBy, hk, hn, ih]
  | @closing tags stack _ start finish' i _ hk hs ih =>
    have hstart := Tag.sameName_congr hs finish
    cases hn : finish'.sameName finish <;>
      simp [openPositions_concat, openedBy, hk, hn, ih, hstart.trans hn]

theorem opener?_of_nested {tags : List Tag} {stack : OpenTags} {pairs : List (Nat × Nat)}
    (h : Nested tags stack pairs) (finish : Tag) :
    opener? finish tags = (stack.find? (·.1.sameName finish)).map Prod.snd := by
  rw [opener?_eq_head?, openPositions_of_nested h, List.head?_map, List.head?_filter]

/-! ## Start tags that are no part of a pair -/

/-- A start tag at a position where no pair begins. -/
def isUnpaired (pairs : List (Nat × Nat)) (entry : Tag × Nat) : Bool :=
  entry.1.isOpening && !pairs.any (·.1 == entry.2)

theorem isUnpaired_append (pairs : List (Nat × Nat)) (i j : Nat) (entry : Tag × Nat) :
    isUnpaired (pairs ++ [(i, j)]) entry = (decide (entry.2 ≠ i) && isUnpaired pairs entry) := by
  by_cases h : entry.2 = i
  · simp [isUnpaired, h]
  · have : (i == entry.2) = false := by simpa using Ne.symm h
    simp [isUnpaired, h, this]

/-- Positions on the stack and in pairs are those of tags. -/
theorem lt_length_of_nested {tags : List Tag} {stack : OpenTags} {pairs : List (Nat × Nat)}
    (h : Nested tags stack pairs) :
    (∀ entry ∈ stack, entry.2 < tags.length) ∧ ∀ pair ∈ pairs, pair.1 < tags.length := by
  induction h with
  | nil => simp
  | selfClosing _ _ ih =>
    rw [List.length_append]
    exact ⟨fun e he => Nat.lt_add_right 1 (ih.1 e he), fun p hp => Nat.lt_add_right 1 (ih.2 p hp)⟩
  | opening _ _ ih =>
    rw [List.length_append]
    refine ⟨List.forall_mem_cons.2 ⟨Nat.lt_succ_self _, fun e he => ?_⟩, fun p hp => ?_⟩
    · exact Nat.lt_add_right 1 (ih.1 e he)
    · exact Nat.lt_add_right 1 (ih.2 p hp)
  | closing _ _ _ ih =>
    rw [List.length_append]
    obtain ⟨hi, hstack⟩ := List.forall_mem_cons.1 ih.1
    refine ⟨fun e he => Nat.lt_add_right 1 (hstack e he), fun p hp => ?_⟩
    rcases List.mem_append.1 hp with hp | hp
    · exact Nat.lt_add_right 1 (ih.2 p hp)
    · rw [List.mem_singleton.1 hp]
      exact Nat.lt_add_right 1 hi

/-- Positions fall from the top of the stack to its bottom. -/
theorem pairwise_of_nested {tags : List Tag} {stack : OpenTags} {pairs : List (Nat × Nat)}
    (h : Nested tags stack pairs) : stack.Pairwise fun a b => b.2 < a.2 := by
  induction h with
  | nil => exact .nil
  | selfClosing _ _ ih => exact ih
  | opening h _ ih => exact .cons (lt_length_of_nested h).1 ih
  | closing _ _ _ ih => exact ih.tail

/-- The stack holds exactly the start tags that are unpaired. -/
theorem unpaired_of_nested {tags : List Tag} {stack : OpenTags} {pairs : List (Nat × Nat)}
    (h : Nested tags stack pairs) :
    tags.zipIdx.filter (isUnpaired pairs) = stack.reverse := by
  induction h with
  | nil => rfl
  | selfClosing _ hk ih => simp [List.zipIdx_append, ih, isUnpaired, Tag.isOpening, hk]
  | @opening tags stack pairs tag h hk ih =>
    have hnew : pairs.any (·.1 == tags.length) = false := by
      rw [List.any_eq_false]
      intro pair hp
      have := (lt_length_of_nested h).2 pair hp
      simp only [beq_iff_eq]
      omega
    simp [List.zipIdx_append, ih, isUnpaired, Tag.isOpening, hk, hnew]
  | @closing tags stack pairs start finish i h hk hs ih =>
    -- the other entries lie below, so the new pair takes away the top alone
    have hne : ∀ entry ∈ stack.reverse, decide (entry.2 ≠ i) := by
      intro entry he
      have := List.rel_of_pairwise_cons (pairwise_of_nested h) (List.mem_reverse.1 he)
      simp only [decide_eq_true_eq]
      omega
    have hfinish : isUnpaired pairs (finish, tags.length) = false := by
      simp [isUnpaired, Tag.isOpening, hk]
    rw [List.zipIdx_append, List.filter_append, funext (isUnpaired_append pairs i tags.length),
      ← List.filter_filter, ih, List.reverse_cons, List.filter_append, List.filter_eq_self.2 hne]
    simp [hfinish]

theorem drop_zipIdx (tags : List Tag) (n first : Nat) :
    (tags.zipIdx n).drop first = (tags.zipIdx n).filter (n + first ≤ ·.2) := by
  induction tags generalizing n first with
  | nil => simp
  | cons tag tags ih =>
    cases first with
    | zero =>
      refine (List.filter_eq_self.2 fun entry he => ?_).symm
      simpa using List.le_snd_of_mem_zipIdx he
    | succ first =>
      have hfirst : ¬ n + (first + 1) ≤ n := by omega
      simp [hfirst, ih, Nat.add_right_comm, Nat.add_assoc]

/-- So a start tag left open is looked for on the stack. -/
theorem firstOpen?_of_nested {tags : List Tag} {stack : OpenTags} {pairs : List (Nat × Nat)}
    (h : Nested tags stack pairs) (first : Nat) :
    firstOpen? pairs first tags = (stack.reverse.find? (first ≤ ·.2)).map Prod.fst := by
  have hdrop := drop_zipIdx tags 0 first
  rw [Nat.zero_add] at hdrop
  rw [← unpaired_of_nested h, firstOpen?, hdrop, List.find?_filter, List.find?_filter]
  simp only [isUnpaired, and_comm]

/-! ## Closing the top -/

/-- An end tag closes the top of the stack or nothing. -/
theorem close_eq_ok_iff {tags : List Tag} {stack : OpenTags} {pairs pairs' : List (Nat × Nat)}
    (h : Nested tags stack pairs) (finish : Tag) :
    close tags finish pairs = .ok pairs' ↔
      ∃ start i below, stack = (start, i) :: below ∧ start.sameName finish ∧
        pairs' = pairs ++ [(i, tags.length)] := by
  have hsorted := pairwise_of_nested h
  rw [close, opener?_of_nested h]
  cases hfind : stack.find? (·.1.sameName finish) with
  | none =>
    simp only [Option.map_none, reduceCtorEq, false_iff]
    rintro ⟨start, i, below, rfl, hs, -⟩
    simp [hs] at hfind
  | some entry =>
    obtain ⟨start, i⟩ := entry
    obtain ⟨hs, above, below, rfl, habove⟩ := List.find?_eq_some_iff_append.1 hfind
    simp only [Option.map_some, firstOpen?_of_nested h]
    cases above with
    | nil =>
      have hnone : (((start, i) :: below).reverse.find? (i + 1 ≤ ·.2)) = none := by
        rw [List.find?_eq_none]
        intro entry he
        simp only [decide_eq_true_eq]
        rcases List.mem_cons.1 (List.mem_reverse.1 he) with rfl | he
        · exact Nat.not_succ_le_self i
        · have := List.rel_of_pairwise_cons hsorted he
          omega
      rw [List.nil_append, hnone]
      constructor
      · intro hp
        cases hp
        exact ⟨start, i, below, rfl, hs, rfl⟩
      · rintro ⟨start', i', below', he, -, rfl⟩
        cases he
        rfl
    | cons top above =>
      have hlater : i < top.2 :=
        List.rel_of_pairwise_cons hsorted (show (start, i) ∈ above ++ (start, i) :: below by simp)
      have hsome : ((top :: above ++ (start, i) :: below).reverse.find? (i + 1 ≤ ·.2)).isSome := by
        rw [List.find?_isSome]
        exact ⟨top, by simp, decide_eq_true hlater⟩
      obtain ⟨entry, he⟩ := Option.isSome_iff_exists.1 hsome
      rw [he]
      simp only [Option.map_some, reduceCtorEq, false_iff]
      rintro ⟨start', i', below', hstack, hs', -⟩
      obtain ⟨rfl, -⟩ := List.cons.inj hstack
      simpa [hs'] using habove _ (List.mem_cons_self ..)

theorem firstOpen?_zero_of_nested {tags : List Tag} {stack : OpenTags} {pairs : List (Nat × Nat)}
    (h : Nested tags stack pairs) : firstOpen? pairs 0 tags = none ↔ stack = [] := by
  rw [firstOpen?_of_nested h, Option.map_eq_none_iff, List.find?_eq_none]
  constructor
  · intro hnone
    rw [← List.reverse_eq_nil_iff, List.eq_nil_iff_forall_not_mem]
    intro entry he
    simpa using hnone entry he
  · rintro rfl
    simp

theorem pairsFrom_closing {tag : Tag} (hk : tag.kind = .closing) (tags rest : List Tag)
    (pairs : List (Nat × Nat)) :
    pairsFrom tags pairs (tag :: rest) =
      (close tags tag pairs).bind fun pairs => pairsFrom (tags ++ [tag]) pairs rest := by
  simp [pairsFrom, Tag.isClosing, hk]

theorem pairsFrom_skip {tag : Tag} (hk : tag.kind ≠ .closing) (tags rest : List Tag)
    (pairs : List (Nat × Nat)) :
    pairsFrom tags pairs (tag :: rest) = pairsFrom (tags ++ [tag]) pairs rest := by
  simp [pairsFrom, Tag.isClosing, hk]

theorem nested_of_pairsFrom {tags rest : List Tag} {stack : OpenTags}
    {pairs pairs' : List (Nat × Nat)} (h : Nested tags stack pairs)
    (hp : pairsFrom tags pairs rest = .ok pairs') : Nested (tags ++ rest) [] pairs' := by
  induction rest generalizing tags stack pairs with
  | nil =>
    rw [pairsFrom] at hp
    split at hp
    · cases hp
    · next hopen =>
      cases hp
      obtain rfl := (firstOpen?_zero_of_nested h).1 hopen
      rwa [List.append_nil]
  | cons tag rest ih =>
    rw [List.append_cons]
    cases hk : tag.kind with
    | closing =>
      rw [pairsFrom_closing hk] at hp
      cases hc : close tags tag pairs with
      | error e => simp [hc, Except.bind] at hp
      | ok pairs'' =>
        obtain ⟨start, i, below, rfl, hs, rfl⟩ := (close_eq_ok_iff h tag).1 hc
        rw [hc] at hp
        exact ih (.closing h hk hs) hp
    | opening =>
      rw [pairsFrom_skip (by simp [hk])] at hp
      exact ih (.opening h hk) hp
    | selfClosing =>
      rw [pairsFrom_skip (by simp [hk])] at hp
      exact ih (.selfClosing h hk) hp

/-- Nested tags in front are paired as they are nested. -/
theorem pairsFrom_of_nested {tags : List Tag} {stack : OpenTags} {pairs : List (Nat × Nat)}
    (h : Nested tags stack pairs) (rest : List Tag) :
    pairsFrom [] [] (tags ++ rest) = pairsFrom tags pairs rest := by
  induction h generalizing rest with
  | nil => rfl
  | selfClosing _ hk ih => rw [← List.append_cons, ih, pairsFrom_skip (by simp [hk])]
  | opening _ hk ih => rw [← List.append_cons, ih, pairsFrom_skip (by simp [hk])]
  | closing h hk hs ih =>
    have hclose := (close_eq_ok_iff h _).2 ⟨_, _, _, rfl, hs, rfl⟩
    rw [← List.append_cons, ih, pairsFrom_closing hk, hclose]
    rfl

end Pairing

/-- Tags can be paired exactly when they are nested. -/
theorem Tag.pairs_eq_ok_iff {tags : List Tag} {pairs : List (Nat × Nat)} :
    Tag.pairs tags = .ok pairs ↔ Nested tags [] pairs := by
  constructor
  · exact Pairing.nested_of_pairsFrom .nil
  · intro h
    have hpairs := Pairing.pairsFrom_of_nested h []
    rw [List.append_nil, Pairing.pairsFrom, (Pairing.firstOpen?_zero_of_nested h).2 rfl] at hpairs
    exact hpairs

end ComponentTags
