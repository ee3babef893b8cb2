import Mathlib
import ComponentTags.Proofs.Block.Innermost
import ComponentTags.Proofs.Block.Matching
import ComponentTags.Proofs.Tag.Reading

/-!
# Mismatched end tags

An end tag is mismatched if its start tag is open but covered by other open start tags. Of these the
latest one has to be closed first: an end tag of its name is the only one that can stand there.
Pairing names the earliest one instead, which is the same tag only where a single one is left
unclosed. The search for the innermost block reports an end tag directly behind a start tag, and it
names that start tag.
-/

namespace ComponentTags

namespace Nested

variable {tags : List Tag} {stack : OpenTags} {pairs : List (Nat × Nat)} {top : Tag × Nat}

/-- Tags that nest so far can be continued to tags that are paired. -/
theorem exists_completion (h : Nested tags stack pairs) :
    ∃ rest pairs', Tag.pairs (tags ++ rest) = .ok pairs' := by
  induction stack generalizing tags pairs with
  | nil =>
    refine ⟨[], pairs, ?_⟩
    rw [List.append_nil]
    exact Tag.pairs_eq_ok_iff.2 h
  | cons entry stack ih =>
    obtain ⟨start, i⟩ := entry
    let finish : Tag := { start with kind := .closing }
    have hname : start.sameName finish := by simp [finish, Tag.sameName, Text.eqIgnoringCase]
    have hclosed : Nested (tags ++ [finish]) stack (pairs ++ [(i, tags.length)]) :=
      h.closing rfl hname
    obtain ⟨rest, pairs', hrest⟩ := ih hclosed
    exact ⟨finish :: rest, pairs', by simpa using hrest⟩

/-- Only an end tag with the name of the top can come next. -/
theorem exists_pairs_append_iff (h : Nested tags (top :: stack) pairs) {finish : Tag}
    (hk : finish.kind = .closing) :
    (∃ rest pairs', Tag.pairs (tags ++ finish :: rest) = .ok pairs') ↔ top.1.sameName finish := by
  constructor
  · rintro ⟨rest, pairs', hok⟩
    rw [Tag.pairs, Pairing.pairsFrom_of_nested h, Pairing.pairsFrom_closing hk] at hok
    cases hclose : Pairing.close tags finish pairs with
    | error e => simp [hclose, Except.bind] at hok
    | ok pairs'' =>
      obtain ⟨start, i, below, hstack, hname, -⟩ := (Pairing.close_eq_ok_iff h finish).1 hclose
      obtain ⟨rfl, -⟩ := List.cons.inj hstack
      exact hname
  · intro hname
    obtain ⟨rest, pairs', hrest⟩ := (h.closing hk hname).exists_completion
    exact ⟨rest, pairs', by simpa using hrest⟩

end Nested

namespace Pairing

variable {tags rest : List Tag} {stack unclosed below : OpenTags} {opener : Tag × Nat}
  {pairs : List (Nat × Nat)} {finish : Tag} {e : Error}

/-- Of the start tags that cover an entry of the stack the earliest one is found. -/
theorem firstOpen?_above (h : Nested tags (unclosed ++ opener :: below) pairs) :
    firstOpen? pairs (opener.2 + 1) tags = unclosed.getLast?.map Prod.fst := by
  -- positions fall down the stack, so none below the entry counts and all above it do
  obtain ⟨-, hbelow, habove⟩ := List.pairwise_append.1 (pairwise_of_nested h)
  have hnone : (below.reverse.find? (opener.2 + 1 ≤ ·.2)) = none := by
    refine List.find?_eq_none.2 fun entry he => ?_
    have := List.rel_of_pairwise_cons hbelow (List.mem_reverse.1 he)
    simp only [decide_eq_true_eq]
    omega
  have hsome : (unclosed.reverse.find? (opener.2 + 1 ≤ ·.2)) = unclosed.getLast? := by
    rw [← List.head?_filter, List.filter_eq_self.2, List.head?_reverse]
    intro entry he
    exact decide_eq_true (habove entry (List.mem_reverse.1 he) opener List.mem_cons_self)
  rw [firstOpen?_of_nested h, List.reverse_append, List.reverse_cons, List.find?_append,
    List.find?_append, hnone, hsome]
  simp

/-- An end tag behind tags that nest, of which the start tag with its name is covered by others, the
latest first. -/
structure Blocked (tags : List Tag) (finish : Tag) (unclosed : OpenTags) : Prop where
  closing : finish.kind = .closing
  covered : ∃ opener below pairs, Nested tags (unclosed ++ opener :: below) pairs ∧
    opener.1.sameName finish
  unnamed : ∀ entry ∈ unclosed, entry.1.sameName finish = false

theorem close_eq_of_covered (h : Nested tags (unclosed ++ opener :: below) pairs)
    (hname : opener.1.sameName finish)
    (hunnamed : ∀ entry ∈ unclosed, entry.1.sameName finish = false) :
    close tags finish pairs =
      match unclosed.getLast? with
      | some earliest =>
        .error (.mismatchedClosingTag earliest.1.name finish.name finish.line)
      | none => .ok (pairs ++ [(opener.2, tags.length)]) := by
  have hfind : (unclosed ++ opener :: below).find? (·.1.sameName finish) = some opener :=
    List.find?_eq_some_iff_append.2
      ⟨hname, unclosed, below, rfl, fun entry he => by simp [hunnamed entry he]⟩
  rw [close, opener?_of_nested h, hfind]
  simp only [Option.map_some, firstOpen?_above h]
  cases unclosed.getLast? <;> rfl

theorem exists_covered_of_close (h : Nested tags stack pairs) {expected found : Text} {line : Nat}
    (he : close tags finish pairs = .error (.mismatchedClosingTag expected found line)) :
    ∃ unclosed opener below earliest, stack = unclosed ++ opener :: below ∧
      opener.1.sameName finish ∧ (∀ entry ∈ unclosed, entry.1.sameName finish = false) ∧
      unclosed.getLast? = some earliest ∧ expected = earliest.1.name ∧ found = finish.name ∧
      line = finish.line := by
  cases hfind : stack.find? (·.1.sameName finish) with
  | none =>
    have hnone : ∀ entry ∈ stack, entry.1.sameName finish = false := by
      simpa using List.find?_eq_none.1 hfind
    rw [close_eq_unmatched h hnone] at he
    cases he
  | some opener =>
    obtain ⟨hname, unclosed, below, rfl, hunnamed⟩ := List.find?_eq_some_iff_append.1 hfind
    simp only [Bool.not_eq_eq_eq_not, Bool.not_true] at hunnamed
    rw [close_eq_of_covered h hname hunnamed] at he
    split at he
    · next earliest hlast =>
      cases he
      exact ⟨unclosed, opener, below, earliest, rfl, hname, hunnamed, hlast, rfl, rfl, rfl⟩
    · cases he

/-- Pairing that does not fail at the end of the tags fails at an end tag. -/
theorem exists_close_eq_error (h : Nested tags stack pairs)
    (he : pairsFrom tags pairs rest = .error e)
    (hne : ∀ name line, e ≠ .missingClosingTag name line) :
    ∃ before finish after stack' pairs', tags ++ rest = before ++ finish :: after ∧
      Nested before stack' pairs' ∧ finish.kind = .closing ∧
      close before finish pairs' = .error e := by
  induction rest generalizing tags stack pairs with
  | nil =>
    rw [pairsFrom] at he
    split at he
    · cases he
      exact absurd rfl (hne _ _)
    · cases he
  | cons tag rest ih =>
    cases hk : tag.kind with
    | selfClosing =>
      rw [pairsFrom_skip (by simp [hk])] at he
      rw [List.append_cons]
      exact ih (h.selfClosing hk) he
    | opening =>
      rw [pairsFrom_skip (by simp [hk])] at he
      rw [List.append_cons]
      exact ih (h.opening hk) he
    | closing =>
      rw [pairsFrom_closing hk] at he
      cases hclose : close tags tag pairs with
      | error e' =>
        rw [hclose] at he
        cases he
        exact ⟨tags, tag, rest, stack, pairs, rfl, h, hk, hclose⟩
      | ok pairs' =>
        obtain ⟨start, i, below, rfl, hname, rfl⟩ := (close_eq_ok_iff h tag).1 hclose
        rw [hclose] at he
        rw [List.append_cons]
        exact ih (h.closing hk hname) he

end Pairing

namespace Tag

open Pairing

variable {tags : List Tag} {expected found : Text} {line : Nat}

/-- The mismatched end tag is the first end tag that is blocked, and of the start tags that block it
the earliest one is named. -/
theorem pairs_eq_mismatched_iff :
    Tag.pairs tags = .error (.mismatchedClosingTag expected found line) ↔
      ∃ before finish after unclosed earliest, tags = before ++ finish :: after ∧
        Blocked before finish unclosed ∧ unclosed.getLast? = some earliest ∧
        expected = earliest.1.name ∧ found = finish.name ∧ line = finish.line := by
  constructor
  · intro he
    obtain ⟨before, finish, after, stack, pairs, htags, hn, hk, hclose⟩ :=
      exists_close_eq_error .nil he nofun
    obtain ⟨unclosed, opener, below, earliest, rfl, hname, hunnamed, hrest⟩ :=
      exists_covered_of_close hn hclose
    exact ⟨before, finish, after, unclosed, earliest, htags,
      ⟨hk, ⟨opener, below, pairs, hn, hname⟩, hunnamed⟩, hrest⟩
  · rintro ⟨before, finish, after, unclosed, earliest, rfl, ⟨hk, hcovered, hunnamed⟩, hlast,
      rfl, rfl, rfl⟩
    obtain ⟨opener, below, pairs, hn, hname⟩ := hcovered
    rw [Tag.pairs, pairsFrom_of_nested hn, pairsFrom_closing hk,
      close_eq_of_covered hn hname hunnamed, hlast]
    rfl

end Tag

namespace Block

/-- The search for the innermost block names the start tag directly before an end tag. -/
theorem exists_of_innermost_eq_mismatched {source : Text} {tags : List Tag}
    (hl : Tag.list source = .ok tags) {expected found : Text} {line : Nat}
    (h : innermost source = .error (.mismatchedClosingTag expected found line)) :
    ∃ before start finish after, tags = before ++ start :: finish :: after ∧
      start.kind = .opening ∧ finish.kind = .closing ∧ expected = start.name ∧
      found = finish.name ∧ line = finish.line := by
  simp only [innermost, hl, bind, Except.bind, pure, Except.pure, throw, throwThe,
    MonadExceptOf.throw] at h
  cases hfind : tags.find? (!·.isClosing) with
  | none =>
    rw [hfind] at h
    cases tags <;> cases h
  | some first =>
    obtain ⟨before, last, closers, rfl, hopen, hclosers, hlast, hfinish⟩ := exists_last_head hfind
    simp only [hfind, hlast, hfinish] at h
    split at h
    · cases h
    split at h
    · cases h
    next hsingle =>
      have hstart : last.kind = .opening := by
        cases hk : last.kind with
        | opening => rfl
        | closing => exact absurd hk hopen
        | selfClosing => simp [Tag.isSelfClosing, hk] at hsingle
      cases closers with
      | nil => cases h
      | cons finish after =>
        rw [List.head?_cons] at h
        simp only at h
        split at h
        · cases h
        · cases h
          exact ⟨before, last, finish, after, rfl, hstart, hclosers finish List.mem_cons_self,
            rfl, rfl, rfl⟩

end Block

namespace Tag

open Pairing

/-- A mismatch names the earliest of the start tags that have to be closed before the end tag at
fault. The end tag that can stand in its place is that of the latest one, so the two agree for
certain only where a single start tag is unclosed. The search for the innermost block always names
the latest one, which stands directly before the end tag. -/
theorem expected_of_mismatched {tags : List Tag} {expected found : Text} {line : Nat}
    (h : Tag.pairs tags = .error (.mismatchedClosingTag expected found line)) :
    (∃ before finish after unclosed earliest latest, tags = before ++ finish :: after ∧
      Blocked before finish unclosed ∧ found = finish.name ∧ line = finish.line ∧
      unclosed.getLast? = some earliest ∧ unclosed.head? = some latest ∧
      expected = earliest.1.name ∧ (unclosed.length = 1 → expected = latest.1.name) ∧
      ∀ other : Tag, other.kind = .closing →
        ((∃ rest pairs, Tag.pairs (before ++ other :: rest) = .ok pairs) ↔
          latest.1.sameName other)) ∧
    ∀ source, Tag.list source = .ok tags → ∀ expected' found' line',
      Block.innermost source = .error (.mismatchedClosingTag expected' found' line') →
        ∃ before start finish after, tags = before ++ start :: finish :: after ∧
          start.kind = .opening ∧ finish.kind = .closing ∧ expected' = start.name ∧
          found' = finish.name ∧ line' = finish.line := by
  refine ⟨?_, fun source hl _ _ _ => Block.exists_of_innermost_eq_mismatched hl⟩
  obtain ⟨before, finish, after, unclosed, earliest, htags, hblocked, hlast, hexpected, hfound,
    hline⟩ := pairs_eq_mismatched_iff.1 h
  obtain ⟨opener, below, pairs, hn, hname⟩ := hblocked.covered
  cases unclosed with
  | nil => cases hlast
  | cons latest between =>
    refine ⟨before, finish, after, latest :: between, earliest, latest, htags, hblocked, hfound,
      hline, hlast, rfl, hexpected, fun hsingle => ?_, fun other hk => ?_⟩
    · obtain rfl : between = [] := by simpa using hsingle
      obtain rfl : latest = earliest := by simpa using hlast
      exact hexpected
    · exact hn.exists_pairs_append_iff hk

/-- Two start tags are unclosed where the first one is to be closed. -/
def overlappedSource : Text :=
  "<A><B><C></A>".toList

def overlappedTags : List Tag :=
  [⟨['A'], .opening, [], ⟨0, 3⟩, 1⟩, ⟨['B'], .opening, [], ⟨3, 6⟩, 1⟩,
    ⟨['C'], .opening, [], ⟨6, 9⟩, 1⟩, ⟨['A'], .closing, [], ⟨9, 13⟩, 1⟩]

theorem list_overlappedSource : Tag.list overlappedSource = .ok overlappedTags := by
  have hfirst : Tag.next? (Token.list overlappedSource) =
      .ok (some (overlappedTags[0], (Token.list overlappedSource).drop 3)) := by cbv
  have hsecond : Tag.next? ((Token.list overlappedSource).drop 3) =
      .ok (some (overlappedTags[1], (Token.list overlappedSource).drop 6)) := by cbv
  have hthird : Tag.next? ((Token.list overlappedSource).drop 6) =
      .ok (some (overlappedTags[2], (Token.list overlappedSource).drop 9)) := by cbv
  have hfourth : Tag.next? ((Token.list overlappedSource).drop 9) =
      .ok (some (overlappedTags[3], [])) := by cbv
  exact Tag.listOfTokens_some hfirst <| Tag.listOfTokens_some hsecond <|
    Tag.listOfTokens_some hthird <| Tag.listOfTokens_some hfourth (Tag.listOfTokens_none rfl)

theorem nested_overlappedTags :
    Nested (overlappedTags.take 3)
      [(overlappedTags[2], 2), (overlappedTags[1], 1), (overlappedTags[0], 0)] [] :=
  .opening (.opening (.opening .nil rfl) rfl) rfl

/-- The first of the two is named by the pairing and the second one by the search for the innermost
block, for the same end tag. -/
theorem expected_ne_latest_overlappedTags :
    Tag.list overlappedSource = .ok overlappedTags ∧
      Blocked (overlappedTags.take 3) overlappedTags[3]
        [(overlappedTags[2], 2), (overlappedTags[1], 1)] ∧
      Tag.pairs overlappedTags =
        .error (.mismatchedClosingTag overlappedTags[1].name overlappedTags[3].name 1) ∧
      Block.innermost overlappedSource =
        .error (.mismatchedClosingTag overlappedTags[2].name overlappedTags[3].name 1) ∧
      overlappedTags[1].name ≠ overlappedTags[2].name := by
  refine ⟨list_overlappedSource, ⟨rfl, ?_, by decide⟩, rfl, ?_, by decide⟩
  · exact ⟨(overlappedTags[0], 0), [], [], nested_overlappedTags, rfl⟩
  · rw [Block.innermost, list_overlappedSource]
    rfl

theorem expected_of_mismatched_overlappedTags :
    Tag.pairs overlappedTags = .error (.mismatchedClosingTag ['B'] ['A'] 1) ∧
      ∃ before finish after unclosed earliest, overlappedTags = before ++ finish :: after ∧
        Blocked before finish unclosed ∧ unclosed.getLast? = some earliest ∧
        ['B'] = earliest.1.name := by
  have hpairs : Tag.pairs overlappedTags = .error (.mismatchedClosingTag ['B'] ['A'] 1) := rfl
  obtain ⟨⟨before, finish, after, unclosed, earliest, -, htags, hblocked, -, -, hlast, -, hexpected,
    -⟩, -⟩ := expected_of_mismatched hpairs
  exact ⟨hpairs, before, finish, after, unclosed, earliest, htags, hblocked, hlast, hexpected⟩

end Tag
end ComponentTags
