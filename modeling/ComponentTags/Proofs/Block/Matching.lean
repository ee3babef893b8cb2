import Mathlib.Data.List.Induction
import ComponentTags.Proofs.Block.Balance

/-!
# Matching

The pairs of tags are a matching that nests, and there is no other one. What pairing answers, errors
included, is what a machine answers that reads the tags once and keeps the open start tags on a
stack: it stops at the first end tag that does not close the top.
-/

namespace ComponentTags

/-- The positions of a start tag and of a later end tag of its name. -/
def Joined (tags : List Tag) (pair : Nat × Nat) : Prop :=
  pair.1 < pair.2 ∧ ∃ start finish, tags[pair.1]? = some start ∧ tags[pair.2]? = some finish ∧
    start.kind = .opening ∧ finish.kind = .closing ∧ start.sameName finish

/-- Pairs of a start tag and a later end tag of its name. They nest, they hold every start tag and
every end tag once, and they stand in the order of their end tags. -/
structure Matching (tags : List Tag) (pairs : List (Nat × Nat)) : Prop where
  joined : ∀ pair ∈ pairs, Joined tags pair
  nests : ∀ outer ∈ pairs, ∀ inner ∈ pairs,
    outer.1 < inner.1 → inner.1 < outer.2 → inner.2 < outer.2
  starts : ∀ i tag, tags[i]? = some tag → tag.kind = .opening → (pairs.map Prod.fst).count i = 1
  ends : ∀ i tag, tags[i]? = some tag → tag.kind = .closing → (pairs.map Prod.snd).count i = 1
  ordered : (pairs.map Prod.snd).Pairwise (· < ·)

/-! ## Nested tags are matched -/

theorem getElem?_append_singleton {α : Type} (items : List α) (item a : α) (i : Nat) :
    (items ++ [item])[i]? = some a ↔ items[i]? = some a ∨ i = items.length ∧ item = a := by
  rcases Nat.lt_trichotomy i items.length with hi | rfl | hi
  · simp [List.getElem?_append_left hi, Nat.ne_of_lt hi]
  · simp
  · rw [List.getElem?_eq_none (by simp; omega), List.getElem?_eq_none (by omega)]
    simp [Nat.ne_of_gt hi]

theorem lt_length_of_getElem? {α : Type} {items : List α} {a : α} {i : Nat}
    (h : items[i]? = some a) : i < items.length :=
  (List.getElem?_eq_some_iff.1 h).1

theorem Joined.append {tags : List Tag} {pair : Nat × Nat} (h : Joined tags pair) (tag : Tag) :
    Joined (tags ++ [tag]) pair := by
  obtain ⟨hlt, start, finish, hs, hf, hrest⟩ := h
  exact ⟨hlt, start, finish, (getElem?_append_singleton ..).2 (.inl hs),
    (getElem?_append_singleton ..).2 (.inl hf), hrest⟩

theorem Joined.snd_lt {tags : List Tag} {pair : Nat × Nat} (h : Joined tags pair) :
    pair.2 < tags.length := by
  obtain ⟨-, -, finish, -, hf, -⟩ := h
  exact lt_length_of_getElem? hf

namespace Nested

variable {tags : List Tag} {stack : OpenTags} {pairs : List (Nat × Nat)}

theorem stack_getElem? (h : Nested tags stack pairs) :
    ∀ entry ∈ stack, tags[entry.2]? = some entry.1 ∧ entry.1.kind = .opening := by
  induction h with
  | nil => simp
  | selfClosing _ _ ih =>
    intro entry he
    exact ⟨(getElem?_append_singleton ..).2 (.inl (ih entry he).1), (ih entry he).2⟩
  | opening _ hk ih =>
    refine List.forall_mem_cons.2 ⟨⟨by simp, hk⟩, fun entry he => ?_⟩
    exact ⟨(getElem?_append_singleton ..).2 (.inl (ih entry he).1), (ih entry he).2⟩
  | closing _ _ _ ih =>
    intro entry he
    have := ih entry (List.mem_cons_of_mem _ he)
    exact ⟨(getElem?_append_singleton ..).2 (.inl this.1), this.2⟩

theorem joined (h : Nested tags stack pairs) : ∀ pair ∈ pairs, Joined tags pair := by
  induction h with
  | nil => simp
  | selfClosing _ _ ih => exact fun pair hp => (ih pair hp).append _
  | opening _ _ ih => exact fun pair hp => (ih pair hp).append _
  | @closing tags stack pairs start finish i h hk hs ih =>
    intro pair hp
    rcases List.mem_append.1 hp with hp | hp
    · exact (ih pair hp).append _
    · obtain rfl := List.mem_singleton.1 hp
      obtain ⟨hstart, hopen⟩ := h.stack_getElem? _ List.mem_cons_self
      exact ⟨lt_length_of_getElem? hstart, start, finish,
        (getElem?_append_singleton ..).2 (.inl hstart), by simp, hopen, hk, hs⟩

theorem ordered (h : Nested tags stack pairs) : (pairs.map Prod.snd).Pairwise (· < ·) := by
  induction h with
  | nil => simp
  | selfClosing _ _ ih => exact ih
  | opening _ _ ih => exact ih
  | closing h _ _ ih =>
    rw [List.map_append, List.pairwise_append]
    refine ⟨ih, by simp, ?_⟩
    intro j hj n hn
    obtain ⟨pair, hp, rfl⟩ := List.mem_map.1 hj
    obtain rfl : n = _ := by simpa using hn
    exact (h.joined pair hp).snd_lt

/-- Every start tag is on the stack or in a pair, and only once. -/
theorem nodup_starts (h : Nested tags stack pairs) :
    (stack.map Prod.snd ++ pairs.map Prod.fst).Nodup := by
  induction h with
  | nil => simp
  | selfClosing _ _ ih => exact ih
  | opening h _ ih =>
    obtain ⟨hstack, hpairs⟩ := Pairing.lt_length_of_nested h
    refine List.nodup_cons.2 ⟨?_, ih⟩
    intro hm
    rcases List.mem_append.1 hm with hm | hm
    · obtain ⟨entry, he, hn⟩ := List.mem_map.1 hm
      exact absurd hn (Nat.ne_of_lt (hstack entry he))
    · obtain ⟨pair, hp, hn⟩ := List.mem_map.1 hm
      exact absurd hn (Nat.ne_of_lt (hpairs pair hp))
  | @closing tags stack pairs _ _ i _ _ _ ih =>
    have hperm : (stack.map Prod.snd ++ (pairs ++ [(i, tags.length)]).map Prod.fst).Perm
        (i :: (stack.map Prod.snd ++ pairs.map Prod.fst)) := by
      rw [List.map_append, ← List.append_assoc]
      exact List.perm_append_singleton ..
    exact hperm.nodup_iff.2 ih

theorem mem_starts (h : Nested tags stack pairs) {i : Nat} {tag : Tag} (hi : tags[i]? = some tag)
    (hk : tag.kind = .opening) : i ∈ stack.map Prod.snd ++ pairs.map Prod.fst := by
  induction h with
  | nil => simp at hi
  | selfClosing _ hk' ih =>
    rcases (getElem?_append_singleton ..).1 hi with hi | ⟨-, rfl⟩
    · exact ih hi
    · rw [hk'] at hk
      cases hk
  | opening _ _ ih =>
    rcases (getElem?_append_singleton ..).1 hi with hi | ⟨rfl, -⟩
    · exact List.mem_cons_of_mem _ (ih hi)
    · exact List.mem_cons_self
  | closing _ hk' _ ih =>
    rcases (getElem?_append_singleton ..).1 hi with hi | ⟨-, rfl⟩
    · have := ih hi
      simp only [List.map_cons, List.cons_append, List.mem_cons, List.mem_append] at this
      simp only [List.map_append, List.mem_append, List.map_cons, List.mem_cons]
      rcases this with rfl | hm | hm <;> simp [*]
    · rw [hk'] at hk
      cases hk

theorem mem_ends (h : Nested tags stack pairs) {i : Nat} {tag : Tag} (hi : tags[i]? = some tag)
    (hk : tag.kind = .closing) : i ∈ pairs.map Prod.snd := by
  induction h with
  | nil => simp at hi
  | selfClosing _ hk' ih =>
    rcases (getElem?_append_singleton ..).1 hi with hi | ⟨-, rfl⟩
    · exact ih hi
    · rw [hk'] at hk
      cases hk
  | opening _ hk' ih =>
    rcases (getElem?_append_singleton ..).1 hi with hi | ⟨-, rfl⟩
    · exact ih hi
    · rw [hk'] at hk
      cases hk
  | closing _ _ _ ih =>
    rw [List.map_append]
    rcases (getElem?_append_singleton ..).1 hi with hi | ⟨rfl, -⟩
    · exact List.mem_append_left _ (ih hi)
    · simp

/-- No tag between the two of a pair is on the stack. -/
theorem outside (h : Nested tags stack pairs) :
    ∀ pair ∈ pairs, ∀ entry ∈ stack, pair.1 < entry.2 → pair.2 < entry.2 := by
  induction h with
  | nil => simp
  | selfClosing _ _ ih => exact ih
  | opening h _ ih =>
    intro pair hp
    refine List.forall_mem_cons.2 ⟨fun _ => (h.joined pair hp).snd_lt, ih pair hp⟩
  | closing h _ _ ih =>
    intro pair hp entry he hlt
    rcases List.mem_append.1 hp with hp | hp
    · exact ih pair hp entry (List.mem_cons_of_mem _ he) hlt
    · obtain rfl := List.mem_singleton.1 hp
      have := List.rel_of_pairwise_cons (Pairing.pairwise_of_nested h) he
      omega

theorem nests (h : Nested tags stack pairs) :
    ∀ outer ∈ pairs, ∀ inner ∈ pairs,
      outer.1 < inner.1 → inner.1 < outer.2 → inner.2 < outer.2 := by
  induction h with
  | nil => simp
  | selfClosing _ _ ih => exact ih
  | opening _ _ ih => exact ih
  | closing h _ _ ih =>
    intro outer ho inner hi hlt hin
    rcases List.mem_append.1 ho with ho | ho
    · rcases List.mem_append.1 hi with hi | hi
      · exact ih outer ho inner hi hlt hin
      · -- the new pair begins on the stack, so it begins outside of the earlier ones
        obtain rfl := List.mem_singleton.1 hi
        have := h.outside outer ho _ List.mem_cons_self hlt
        omega
    · obtain rfl := List.mem_singleton.1 ho
      rcases List.mem_append.1 hi with hi | hi
      · exact (h.joined inner hi).snd_lt
      · obtain rfl := List.mem_singleton.1 hi
        omega

theorem matching (h : Nested tags [] pairs) : Matching tags pairs where
  joined := h.joined
  nests := h.nests
  starts i tag hi hk := by
    have hm := h.mem_starts hi hk
    have hn := h.nodup_starts
    rw [List.map_nil, List.nil_append] at hm hn
    exact Nat.le_antisymm (List.nodup_iff_count.1 hn i) (List.count_pos_iff.2 hm)
  ends i tag hi hk := by
    have hn : (pairs.map Prod.snd).Nodup := h.ordered.imp Nat.ne_of_lt
    exact Nat.le_antisymm (List.nodup_iff_count.1 hn i) (List.count_pos_iff.2 (h.mem_ends hi hk))
  ordered := h.ordered

end Nested

/-! ## Matched tags are nested -/

namespace Matching

variable {tags : List Tag} {pairs : List (Nat × Nat)}

/-- The pairs that end before a position. -/
def endedBefore (pairs : List (Nat × Nat)) (n : Nat) : List (Nat × Nat) :=
  pairs.filter (·.2 < n)

theorem endedBefore_succ_of_notMem {n : Nat} (h : n ∉ pairs.map Prod.snd) :
    endedBefore pairs (n + 1) = endedBefore pairs n := by
  refine List.filter_congr fun pair hp => ?_
  have : pair.2 ≠ n := fun hn => h (hn ▸ List.mem_map_of_mem hp)
  simp only [decide_eq_decide]
  omega

theorem endedBefore_succ_of_mem (h : (pairs.map Prod.snd).Pairwise (· < ·)) {pair : Nat × Nat}
    (hp : pair ∈ pairs) :
    endedBefore pairs (pair.2 + 1) = endedBefore pairs pair.2 ++ [pair] := by
  obtain ⟨before, after, rfl⟩ := List.append_of_mem hp
  rw [List.map_append, List.map_cons, List.pairwise_append] at h
  obtain ⟨-, hafter, hbefore⟩ := h
  have hlt : ∀ p ∈ before, p.2 < pair.2 := fun p hm =>
    hbefore _ (List.mem_map_of_mem hm) _ List.mem_cons_self
  have hgt : ∀ p ∈ after, pair.2 < p.2 := fun p hm =>
    List.rel_of_pairwise_cons hafter (List.mem_map_of_mem hm)
  have hnone (n : Nat) (hn : n ≤ pair.2 + 1) : endedBefore after n = [] := by
    refine List.filter_eq_nil_iff.2 fun p hm => ?_
    have := hgt p hm
    simp only [decide_eq_true_eq]
    omega
  have hall (n : Nat) (hn : pair.2 ≤ n) : endedBefore before n = before := by
    refine List.filter_eq_self.2 fun p hm => ?_
    have := hlt p hm
    simp only [decide_eq_true_eq]
    omega
  have happend (n : Nat) : endedBefore (before ++ pair :: after) n =
      endedBefore before n ++ (endedBefore [pair] n ++ endedBefore after n) := by
    rw [endedBefore, List.filter_append]
    exact congrArg _ (List.filter_append [pair] after)
  rw [happend, happend, hall _ (Nat.le_succ _), hall _ (Nat.le_refl _), hnone _ (Nat.le_refl _),
    hnone _ (Nat.le_succ _)]
  simp [endedBefore]

theorem notMem_ends (h : Matching tags pairs) {i : Nat} {tag : Tag} (hi : tags[i]? = some tag)
    (hk : tag.kind ≠ .closing) : i ∉ pairs.map Prod.snd := by
  intro hm
  obtain ⟨pair, hp, rfl⟩ := List.mem_map.1 hm
  obtain ⟨-, -, finish, -, hf, -, hclosing, -⟩ := h.joined pair hp
  obtain rfl := Option.some.inj (hi.symm.trans hf)
  exact hk hclosing

/-- A pair is determined by its start. -/
theorem eq_of_fst_eq (h : Matching tags pairs) {p q : Nat × Nat} (hp : p ∈ pairs) (hq : q ∈ pairs)
    (heq : p.1 = q.1) : p = q := by
  obtain ⟨-, start, -, hs, -, hk, -, -⟩ := h.joined p hp
  obtain ⟨before, after, rfl⟩ := List.append_of_mem hp
  have hcount := h.starts p.1 start hs hk
  simp only [List.map_append, List.map_cons, List.count_append, List.count_cons_self] at hcount
  have hnot (rest : List (Nat × Nat)) (hr : (rest.map Prod.fst).count p.1 = 0) : q ∉ rest := by
    intro hm
    exact List.count_eq_zero.1 hr (heq ▸ List.mem_map_of_mem hm)
  rcases List.mem_append.1 hq with hq | hq
  · exact absurd hq (hnot before (by omega))
  · rcases List.mem_cons.1 hq with rfl | hq
    · rfl
    · exact absurd hq (hnot after (by omega))

/-- An end tag closes the top of the stack: what would lie above it begins inside the pair and ends
outside of it. -/
theorem exists_top (h : Matching tags pairs) {before after : List Tag} {finish : Tag}
    {stack : OpenTags} (hs : tags = before ++ finish :: after) (hk : finish.kind = .closing)
    (hn : Nested before stack (endedBefore pairs before.length)) :
    ∃ start i below, stack = (start, i) :: below ∧ start.sameName finish ∧
      (i, before.length) ∈ pairs := by
  have hfinish : tags[before.length]? = some finish := by simp [hs]
  have hm : before.length ∈ pairs.map Prod.snd :=
    List.count_pos_iff.1 (by rw [h.ends _ _ hfinish hk]; exact Nat.one_pos)
  obtain ⟨pair, hp, hend⟩ := List.mem_map.1 hm
  obtain ⟨hlt, start, finish', hstart, hfinish', hopen, -, hname⟩ := h.joined pair hp
  obtain rfl : finish = finish' := by
    rw [hend, hfinish] at hfinish'
    exact Option.some.inj hfinish'
  have hbefore (i : Nat) (hi : i < before.length) : before[i]? = tags[i]? := by
    rw [hs, List.getElem?_append_left hi]
  -- the start of the pair is still open
  have hstack : pair.1 ∈ stack.map Prod.snd := by
    have hmem := hn.mem_starts ((hbefore pair.1 (hend ▸ hlt)).trans hstart) hopen
    refine (List.mem_append.1 hmem).resolve_right fun hended => ?_
    obtain ⟨other, hother, heq⟩ := List.mem_map.1 hended
    obtain ⟨hother, hearly⟩ := List.mem_filter.1 hother
    obtain rfl := h.eq_of_fst_eq hother hp heq
    rw [hend] at hearly
    simp at hearly
  obtain ⟨entry, hentry, hfst⟩ := List.mem_map.1 hstack
  cases stack with
  | nil => cases hentry
  | cons top below =>
    obtain ⟨htop, hkind⟩ := hn.stack_getElem? top List.mem_cons_self
    have htoplt := lt_length_of_getElem? htop
    have heq : top.2 = pair.1 := by
      rcases List.mem_cons.1 hentry with rfl | hentry
      · exact hfst
      · have habove := List.rel_of_pairwise_cons (Pairing.pairwise_of_nested hn) hentry
        rw [hbefore _ htoplt] at htop
        obtain ⟨q, hq, hqstart⟩ := List.mem_map.1
          (List.count_pos_iff.1 (by rw [h.starts _ _ htop hkind]; exact Nat.one_pos))
        have hinside := h.nests pair hp q hq (by omega) (by omega)
        have hended : q ∈ endedBefore pairs before.length :=
          List.mem_filter.2 ⟨hq, decide_eq_true (hend ▸ hinside)⟩
        have hdisjoint := List.nodup_append.1 hn.nodup_starts
        exact absurd hqstart.symm
          (hdisjoint.2.2 _ (by simp) _ (List.mem_map_of_mem hended))
    refine ⟨top.1, top.2, below, rfl, ?_, ?_⟩
    · rw [hbefore _ htoplt, heq, hstart] at htop
      exact Option.some.inj htop ▸ hname
    · rw [heq, ← hend]
      exact hp

theorem exists_nested (h : Matching tags pairs) {before after : List Tag}
    (hs : tags = before ++ after) :
    ∃ stack, Nested before stack (endedBefore pairs before.length) := by
  induction before using List.reverseRecOn generalizing after with
  | nil =>
    have hnone : endedBefore pairs ([] : List Tag).length = [] :=
      List.filter_eq_nil_iff.2 (by simp)
    exact ⟨[], hnone ▸ .nil⟩
  | append_singleton before tag ih =>
    rw [List.append_assoc, List.singleton_append] at hs
    obtain ⟨stack, hn⟩ := ih hs
    have htag : tags[before.length]? = some tag := by simp [hs]
    rw [List.length_append, List.length_singleton]
    cases hk : tag.kind with
    | selfClosing =>
      rw [endedBefore_succ_of_notMem (h.notMem_ends htag (by simp [hk]))]
      exact ⟨stack, hn.selfClosing hk⟩
    | opening =>
      rw [endedBefore_succ_of_notMem (h.notMem_ends htag (by simp [hk]))]
      exact ⟨_, hn.opening hk⟩
    | closing =>
      obtain ⟨start, i, below, rfl, hname, hp⟩ := h.exists_top hs hk hn
      rw [endedBefore_succ_of_mem h.ordered hp]
      exact ⟨below, hn.closing hk hname⟩

theorem nested (h : Matching tags pairs) : Nested tags [] pairs := by
  obtain ⟨stack, hn⟩ := h.exists_nested (List.append_nil tags).symm
  have hall : endedBefore pairs tags.length = pairs :=
    List.filter_eq_self.2 fun pair hp => decide_eq_true ((h.joined pair hp).snd_lt)
  rw [hall] at hn
  cases stack with
  | nil => exact hn
  | cons top below =>
    -- a start tag that is open in the end would have no pair
    obtain ⟨htop, hkind⟩ := hn.stack_getElem? top List.mem_cons_self
    have hm : top.2 ∈ pairs.map Prod.fst :=
      List.count_pos_iff.1 (by rw [h.starts _ _ htop hkind]; exact Nat.one_pos)
    exact absurd rfl ((List.nodup_append.1 hn.nodup_starts).2.2 _ (by simp) _ hm)

end Matching

/-- The pairs of tags are their only matching. -/
theorem Tag.pairs_eq_ok_iff_matching {tags : List Tag} {pairs : List (Nat × Nat)} :
    Tag.pairs tags = .ok pairs ↔ Matching tags pairs :=
  Tag.pairs_eq_ok_iff.trans ⟨Nested.matching, Matching.nested⟩

/-! ## The machine with a stack -/

namespace Pairing

/-- What the machine finds. -/
inductive Verdict where
  | paired (pairs : List (Nat × Nat))
  /-- No start tag of the name of the end tag is open. -/
  | unmatched (finish : Tag)
  /-- A start tag of the name is open, but it is not the latest one that is. -/
  | mismatched (finish : Tag)
  /-- The earliest of the start tags that are open in the end. -/
  | unclosed (start : Tag)

/-- Reads tags from the given position on, with the open start tags on a stack, and stops at the
first end tag that does not close the top. -/
def verdictFrom (stack : OpenTags) (position : Nat) (pairs : List (Nat × Nat)) :
    List Tag → Verdict
  | [] =>
    match stack.getLast? with
    | none => .paired pairs
    | some (start, _) => .unclosed start
  | tag :: rest =>
    match tag.kind with
    | .selfClosing => verdictFrom stack (position + 1) pairs rest
    | .opening => verdictFrom ((tag, position) :: stack) (position + 1) pairs rest
    | .closing =>
      match stack with
      | [] => .unmatched tag
      | (start, i) :: below =>
        if start.sameName tag then
          verdictFrom below (position + 1) (pairs ++ [(i, position)]) rest
        else if below.any (·.1.sameName tag) then .mismatched tag
        else .unmatched tag

def verdict (tags : List Tag) : Verdict :=
  verdictFrom [] 0 [] tags

/-- How a verdict is told: every fault is an error of its own, with the name and the line of the tag
at fault. -/
inductive Verdict.Reported : Verdict → Except Error (List (Nat × Nat)) → Prop where
  | paired (pairs : List (Nat × Nat)) : Reported (.paired pairs) (.ok pairs)
  | unmatched (finish : Tag) :
      Reported (.unmatched finish) (.error (.unmatchedClosingTag finish.name finish.line))
  | mismatched (expected : Text) (finish : Tag) :
      Reported (.mismatched finish)
        (.error (.mismatchedClosingTag expected finish.name finish.line))
  | unclosed (start : Tag) :
      Reported (.unclosed start) (.error (.missingClosingTag start.name start.line))

variable {tags : List Tag} {stack : OpenTags} {pairs : List (Nat × Nat)}

theorem close_eq_unmatched (h : Nested tags stack pairs) {finish : Tag}
    (hnone : ∀ entry ∈ stack, entry.1.sameName finish = false) :
    close tags finish pairs = .error (.unmatchedClosingTag finish.name finish.line) := by
  have hfind : stack.find? (·.1.sameName finish) = none :=
    List.find?_eq_none.2 fun entry he => by simp [hnone entry he]
  rw [close, opener?_of_nested h, hfind]
  rfl

theorem exists_close_eq_mismatched (h : Nested tags stack pairs) {finish : Tag}
    {entry : Tag × Nat} (hm : entry ∈ stack) (hname : entry.1.sameName finish)
    (htop : ∀ top ∈ stack.head?, top.1.sameName finish = false) :
    ∃ expected, close tags finish pairs =
      .error (.mismatchedClosingTag expected finish.name finish.line) := by
  have hsome : (stack.find? (·.1.sameName finish)).isSome :=
    List.find?_isSome.2 ⟨entry, hm, hname⟩
  obtain ⟨opener, hfind⟩ := Option.isSome_iff_exists.1 hsome
  have hnot (pairs' : List (Nat × Nat)) : close tags finish pairs ≠ .ok pairs' := by
    rw [ne_eq, close_eq_ok_iff h]
    rintro ⟨start, i, below, rfl, hs, -⟩
    simp [hs] at htop
  simp only [close, opener?_of_nested h, hfind, Option.map_some] at hnot ⊢
  cases hopen : firstOpen? pairs (opener.2 + 1) tags with
  | none =>
    rw [hopen] at hnot
    exact absurd rfl (hnot _)
  | some tag => exact ⟨tag.name, rfl⟩

theorem firstOpen?_zero_eq (h : Nested tags stack pairs) :
    firstOpen? pairs 0 tags = stack.getLast?.map Prod.fst := by
  rw [firstOpen?_of_nested h, ← List.head?_reverse]
  cases stack.reverse <;> simp

/-- Pairing goes on as the machine does. -/
theorem reported_verdictFrom (h : Nested tags stack pairs) (rest : List Tag) :
    (verdictFrom stack tags.length pairs rest).Reported (pairsFrom tags pairs rest) := by
  induction rest generalizing tags stack pairs with
  | nil =>
    simp only [verdictFrom, pairsFrom, firstOpen?_zero_eq h]
    cases stack.getLast? with
    | none => exact .paired pairs
    | some entry => exact .unclosed entry.1
  | cons tag rest ih =>
    have hlength : (tags ++ [tag]).length = tags.length + 1 := by simp
    cases hk : tag.kind with
    | selfClosing =>
      rw [pairsFrom_skip (by simp [hk])]
      simp only [verdictFrom, hk]
      exact hlength ▸ ih (h.selfClosing hk)
    | opening =>
      rw [pairsFrom_skip (by simp [hk])]
      simp only [verdictFrom, hk]
      exact hlength ▸ ih (h.opening hk)
    | closing =>
      rw [pairsFrom_closing hk]
      cases stack with
      | nil =>
        rw [close_eq_unmatched h (by simp)]
        simp only [verdictFrom, hk]
        exact .unmatched tag
      | cons top below =>
        obtain ⟨start, i⟩ := top
        simp only [verdictFrom, hk]
        split
        · next hname =>
          rw [(close_eq_ok_iff h tag).2 ⟨start, i, below, rfl, hname, rfl⟩]
          exact hlength ▸ ih (h.closing hk hname)
        · next hname =>
          rw [Bool.not_eq_true] at hname
          split
          · next hbelow =>
            obtain ⟨entry, hm, hentry⟩ := List.any_eq_true.1 hbelow
            obtain ⟨expected, hclose⟩ := exists_close_eq_mismatched h
              (List.mem_cons_of_mem _ hm) hentry (by simpa using hname)
            rw [hclose]
            exact .mismatched expected tag
          · next hbelow =>
            rw [close_eq_unmatched h ?_]
            · exact .unmatched tag
            · refine List.forall_mem_cons.2 ⟨hname, ?_⟩
              simpa using hbelow

end Pairing

/-! ## Without the self-closing tags -/

namespace Balanced

theorem singles_append {singles rest : List Tag} (hs : ∀ tag ∈ singles, tag.kind = .selfClosing)
    (h : Balanced rest) : Balanced (singles ++ rest) := by
  induction singles with
  | nil => exact h
  | cons tag singles ih =>
    obtain ⟨htag, hs⟩ := List.forall_mem_cons.1 hs
    exact .single htag (ih hs)

/-- Self-closing tags have no part in the balance. -/
theorem filter_iff {tags : List Tag} :
    Balanced (tags.filter (!·.isSelfClosing)) ↔ Balanced tags := by
  have skipped {tag : Tag} (h : ¬ (!tag.isSelfClosing) = true) : tag.kind = .selfClosing := by
    simpa [Tag.isSelfClosing] using h
  constructor
  · intro h
    generalize hf : tags.filter (!·.isSelfClosing) = kept at h
    induction h generalizing tags with
    | nil =>
      rw [← List.append_nil tags]
      exact singles_append (fun tag hm => skipped (List.filter_eq_nil_iff.1 hf tag hm)) .nil
    | @single tag rest hk =>
      have hm : tag ∈ tags.filter (!·.isSelfClosing) := by simp [hf]
      have := (List.mem_filter.1 hm).2
      simp [Tag.isSelfClosing, hk] at this
    | pair hs hfinish hname _ _ ihb ihr =>
      obtain ⟨lead, after, rfl, hlead, -, hafter⟩ := List.filter_eq_cons_iff.1 hf
      obtain ⟨body, after', rfl, hbody, hrest⟩ := List.filter_eq_append_iff.1 hafter
      obtain ⟨inner, rest, rfl, hinner, -, hrest⟩ := List.filter_eq_cons_iff.1 hrest
      have hinside : Balanced (body ++ inner) := by
        have := singles_append (fun tag hm => skipped (hinner tag hm)) .nil
        exact (ihb hbody).append (by simpa using this)
      refine singles_append (fun tag hm => skipped (hlead tag hm)) ?_
      rw [← List.append_assoc]
      exact .pair hs hfinish hname hinside (ihr hrest)
  · intro h
    induction h with
    | nil => exact .nil
    | single hk _ ih => simpa [Tag.isSelfClosing, hk] using ih
    | pair hs hf hname _ _ ihb ihr =>
      simp only [List.filter_cons, List.filter_append, Tag.isSelfClosing, hs, hf]
      exact .pair hs hf hname ihb ihr

end Balanced

/-- Tags can be paired exactly when they are well nested without the self-closing ones, and the
pairs are their only matching. Otherwise the error is the fault at which a machine with a stack
stops. -/
theorem Tag.pairs_iff_matching_and_reported (tags : List Tag) :
    ((∃ pairs, Tag.pairs tags = .ok pairs) ↔ Balanced (tags.filter (!·.isSelfClosing))) ∧
      (∀ pairs, Tag.pairs tags = .ok pairs ↔ Matching tags pairs) ∧
      (Pairing.verdict tags).Reported (Tag.pairs tags) :=
  ⟨Balanced.exists_pairs_iff.trans Balanced.filter_iff.symm, fun _ => Tag.pairs_eq_ok_iff_matching,
    Pairing.reported_verdictFrom .nil tags⟩

end ComponentTags
