import ComponentTags.Proofs.Token.Cut
import ComponentTags.Tag.List

/-!
# Reading tags in any place

What is read from tokens does not depend on where they stand: moving the tokens moves the tags and
the lines of errors along. What is read of a tag does not depend on the tokens after it either.
-/

namespace ComponentTags

/-- The error in the same text when it stands in another place. -/
def Error.moved (p : Place) : Error → Error
  | .unterminatedString tag line => .unterminatedString tag (p.line + line)
  | .missingClosingBracket tag line => .missingClosingBracket tag (p.line + line)
  | .unexpectedToken tag expected found line => .unexpectedToken tag expected found (p.line + line)
  | .missingClosingTag tag line => .missingClosingTag tag (p.line + line)
  | .mismatchedClosingTag expected found line =>
    .mismatchedClosingTag expected found (p.line + line)
  | .unmatchedClosingTag tag line => .unmatchedClosingTag tag (p.line + line)
  | .unknownComponent name line => .unknownComponent name (p.line + line)
  | e => e

namespace Tag

def moved (p : Place) (t : Tag) : Tag :=
  { t with
    span := ⟨p.offset + t.span.start, p.offset + t.span.stop⟩
    line := p.line + t.line }

@[simp] theorem kind_moved (p : Place) (t : Tag) : (t.moved p).kind = t.kind := rfl

/-- What is read, with the tokens that are left, when the tokens stand in another place. -/
def movedResult {α : Type} (p : Place) (f : α → α) :
    Except Error (α × List Token) → Except Error (α × List Token)
  | .error e => .error (e.moved p)
  | .ok (a, after) => .ok (f a, after.map (Token.moved p))

/-! ## Moved attributes -/

variable (p : Place)

theorem skipSpace_map (tokens : List Token) :
    skipSpace (tokens.map (Token.moved p)) = (skipSpace tokens).map (Token.moved p) :=
  List.dropWhile_map

theorem startsAttribute_map (tokens : List Token) :
    startsAttribute (tokens.map (Token.moved p)) = startsAttribute tokens := by
  cases tokens with
  | nil => rfl
  | cons key rest =>
    simp only [List.map_cons, startsAttribute, skipSpace_map]
    cases skipSpace rest with
    | nil => rfl
    | cons assign rest =>
      simp only [List.map_cons, skipSpace_map]
      cases skipSpace rest <;> rfl

theorem splitAtAttribute_map (tokens : List Token) :
    splitAtAttribute (tokens.map (Token.moved p)) =
      ((splitAtAttribute tokens).1.map (Token.moved p),
        (splitAtAttribute tokens).2.map (Token.moved p)) := by
  induction tokens with
  | nil => rfl
  | cons t rest ih =>
    have hstart := startsAttribute_map p (t :: rest)
    rw [List.map_cons] at hstart ⊢
    unfold splitAtAttribute
    rw [hstart]
    split
    · rfl
    · rw [ih]
      rfl

theorem splitAtLast_map (kind : Token.Kind) (tokens : List Token) :
    splitAtLast (·.kind == kind) (tokens.map (Token.moved p)) =
      (splitAtLast (·.kind == kind) tokens).map fun r =>
        (r.1.map (Token.moved p), r.2.map (Token.moved p)) := by
  induction tokens with
  | nil => rfl
  | cons t rest ih =>
    simp only [List.map_cons, splitAtLast, ih]
    cases splitAtLast (·.kind == kind) rest with
    | some r => rfl
    | none =>
      simp only [Option.map_none, Token.kind_moved]
      by_cases hk : t.kind == kind <;> simp [hk]

theorem readValue_map (tag : Text) (opening : Token) (tokens : List Token) :
    readValue tag (opening.moved p) (tokens.map (Token.moved p)) =
      movedResult p id (readValue tag opening tokens) := by
  simp only [readValue, splitAtAttribute_map, Token.kind_moved, splitAtLast_map]
  cases splitAtLast (·.kind == opening.kind) (splitAtAttribute tokens).1 with
  | none => rfl
  | some r =>
    obtain ⟨value, trailing⟩ := r
    have hcount : (value.map (Token.moved p)).countP (·.kind == opening.kind) =
        value.countP (·.kind == opening.kind) := by
      simp [List.countP_map, Function.comp_def]
    have hstray : (trailing.map (Token.moved p)).find? (!·.isWhitespace) =
        (trailing.find? (!·.isWhitespace)).map (Token.moved p) := by
      rw [List.find?_map]
      rfl
    have htext : (value.map (Token.moved p)).flatMap Token.text = value.flatMap Token.text := by
      simp [List.flatMap_map]
    simp only [Option.map_some, hcount, hstray, htext]
    split
    · rfl
    · cases trailing.find? (!·.isWhitespace) <;> rfl

theorem readAttribute_map (tag : Text) (key : Token) (tokens : List Token) :
    readAttribute tag (key.moved p) (tokens.map (Token.moved p)) =
      movedResult p id (readAttribute tag key tokens) := by
  simp only [readAttribute, Token.kind_moved, skipSpace_map]
  split
  · rfl
  · cases skipSpace tokens with
    | nil => rfl
    | cons assign rest =>
      simp only [List.map_cons, Token.kind_moved, skipSpace_map]
      split
      · rfl
      · cases skipSpace rest with
        | nil => rfl
        | cons opening rest =>
          simp only [List.map_cons, Token.kind_moved, readValue_map]
          split <;> rfl

theorem readAttributes_cons (tag : Text) (key : Token) (tokens : List Token) :
    readAttributes tag (key :: tokens) =
      match readAttribute tag key tokens with
      | .error e => .error e
      | .ok (value, after) => (readAttributes tag after).map ((key.text, value) :: ·) := by
  rw [readAttributes]
  split <;> simp_all

theorem mapError_ok {α : Type} (a : α) :
    (Except.ok a : Except Error α).mapError (Error.moved p) = .ok a := rfl

theorem readAttributes_map (tag : Text) (tokens : List Token) :
    readAttributes tag (tokens.map (Token.moved p)) =
      (readAttributes tag tokens).mapError (Error.moved p) := by
  fun_induction readAttributes tag tokens with
  | case1 => rw [List.map_nil, readAttributes, mapError_ok]
  | case2 key tokens e he =>
    rw [List.map_cons, readAttributes_cons, readAttribute_map, he]
    rfl
  | case3 key tokens value after ha _ ih =>
    rw [List.map_cons, readAttributes_cons, readAttribute_map, ha]
    simp only [movedResult, id, ih]
    cases readAttributes tag after <;> rfl

/-! ## Moved tags -/

theorem step_moved (s : ValueState) (t : Token) : s.step (t.moved p) = s.step t := rfl

theorem extent_map (s : ValueState) (tokens : List Token) :
    extent s (tokens.map (Token.moved p)) =
      (extent s tokens).map fun e =>
        ⟨e.body.map (Token.moved p), e.terminator.moved p, e.after.map (Token.moved p)⟩ := by
  induction tokens generalizing s with
  | nil => rfl
  | cons t rest ih =>
    simp only [List.map_cons, extent, Token.kind_moved, step_moved, ih]
    split
    · rfl
    · cases extent (s.step t) rest <;> rfl

theorem head_text_map (tokens : List Token) :
    ((tokens.map (Token.moved p)).head?.map Token.text).getD [] =
      (tokens.head?.map Token.text).getD [] := by
  cases tokens <;> rfl

theorem readOpening_map (start : Token) (tokens : List Token) :
    readOpening (start.moved p) (tokens.map (Token.moved p)) =
      movedResult p (moved p) (readOpening start tokens) := by
  simp only [readOpening, head_text_map, ← List.map_tail, extent_map]
  cases extent {} tokens.tail with
  | error inside => cases inside <;> rfl
  | ok head =>
    simp only [Except.map, skipSpace_map, readAttributes_map]
    cases readAttributes ((tokens.head?.map Token.text).getD []) (skipSpace head.body) with
    | error e => rfl
    | ok attributes => simp [mapError_ok, movedResult, moved]

theorem readClosing_map (start : Token) (tokens : List Token) :
    readClosing (start.moved p) (tokens.map (Token.moved p)) =
      movedResult p (moved p) (readClosing start tokens) := by
  simp only [readClosing, head_text_map, ← List.map_tail, skipSpace_map]
  cases skipSpace tokens.tail with
  | nil => rfl
  | cons t after =>
    by_cases hk : t.kind = .rightAngle
    · simp [hk, movedResult, moved]
    · simp [hk, movedResult, Error.moved, unexpected]

theorem readSpaced?_map (start : Token) (tokens : List Token) :
    readSpaced? (start.moved p) (tokens.map (Token.moved p)) =
      (readSpaced? start tokens).map fun r => (r.1.moved p, r.2.map (Token.moved p)) := by
  rcases tokens with _ | ⟨space, _ | ⟨name, rest⟩⟩
  · rfl
  · rfl
  · have hopening := readOpening_map p start (name :: rest)
    have hspace : (space.moved p).isWhitespace = space.isWhitespace := rfl
    have hname : (name.moved p).isTagName = name.isTagName := rfl
    simp only [List.map_cons, readSpaced?, hspace, hname] at hopening ⊢
    rw [hopening]
    split
    · cases readOpening start (name :: rest) <;> rfl
    · rfl

/-- What a search for a tag answers when the tokens stand in another place. -/
def movedNext : Except Error (Option (Tag × List Token)) → Except Error (Option (Tag × List Token))
  | .error e => .error (e.moved p)
  | .ok r => .ok (r.map fun (tag, after) => (tag.moved p, after.map (Token.moved p)))

theorem next?_map (tokens : List Token) :
    next? (tokens.map (Token.moved p)) = movedNext p (next? tokens) := by
  induction tokens with
  | nil => rfl
  | cons t rest ih =>
    simp only [List.map_cons, next?, Token.kind_moved, readOpening_map, readClosing_map,
      readSpaced?_map, ih]
    cases t.kind with
    | tagStart => cases readOpening t rest <;> rfl
    | closingTagStart => cases readClosing t rest <;> rfl
    | leftAngle => cases readSpaced? t rest <;> rfl
    | _ => rfl

theorem listOfTokens_eq (tokens : List Token) :
    listOfTokens tokens =
      match next? tokens with
      | .error e => .error e
      | .ok none => .ok []
      | .ok (some (tag, after)) => (listOfTokens after).map (tag :: ·) := by
  rw [listOfTokens]
  split <;> simp_all

theorem listOfTokens_none {tokens : List Token} (h : next? tokens = .ok none) :
    listOfTokens tokens = .ok [] := by
  rw [listOfTokens_eq, h]

theorem listOfTokens_some {tokens after : List Token} {tag : Tag} {tags : List Tag}
    (h : next? tokens = .ok (some (tag, after))) (hafter : listOfTokens after = .ok tags) :
    listOfTokens tokens = .ok (tag :: tags) := by
  rw [listOfTokens_eq, h]
  simp only [hafter, Except.map]

theorem listOfTokens_map (tokens : List Token) :
    listOfTokens (tokens.map (Token.moved p)) =
      ((listOfTokens tokens).mapError (Error.moved p)).map (List.map (moved p)) := by
  fun_induction listOfTokens tokens with
  | case1 tokens e hn => rw [listOfTokens_eq, next?_map, hn]; rfl
  | case2 tokens hn => rw [listOfTokens_eq, next?_map, hn]; rfl
  | case3 tokens tag after hn _ ih =>
    rw [listOfTokens_eq, next?_map, hn]
    simp only [movedNext, Option.map_some, ih]
    cases listOfTokens after <;> rfl

/-! ## What follows a tag -/

theorem extent_append {s : ValueState} {tokens : List Token} {e : Extent}
    (h : extent s tokens = .ok e) (after : List Token) :
    extent s (e.body ++ e.terminator :: after) = .ok { e with after } := by
  induction tokens generalizing s e with
  | nil => simp [extent] at h
  | cons t rest ih =>
    unfold extent at h
    split at h
    · next ht =>
      cases h
      simp [extent, ht]
    · next ht =>
      cases hr : extent (s.step t) rest with
      | error b => simp [hr, Except.map] at h
      | ok e' =>
        simp only [hr, Except.map, Except.ok.injEq] at h
        subst h
        simp [extent, ht, ih hr, Except.map]

theorem readOpening_append {mark : Token} {tokens after : List Token} {tag : Tag}
    (h : readOpening mark tokens = .ok (tag, after)) :
    ∃ written, tokens = written ++ after ∧
      ∀ after', readOpening mark (written ++ after') = .ok (tag, after') := by
  cases tokens with
  | nil => simp [readOpening, extent] at h
  | cons name rest =>
    simp only [readOpening, List.tail_cons] at h
    split at h
    · cases h
    · cases h
    · next head hx =>
      cases ha : readAttributes name.text (skipSpace head.body) with
      | error e => simp [ha, Except.map] at h
      | ok entries =>
        simp only [List.head?_cons, Option.map_some, Option.getD_some, ha, Except.map,
          Except.ok.injEq, Prod.mk.injEq] at h
        obtain ⟨rfl, rfl⟩ := h
        refine ⟨name :: (head.body ++ [head.terminator]), ?_, ?_⟩
        · simpa using (extent_eq_append hx).1
        · intro after'
          have := extent_append hx after'
          simp [readOpening, this, ha, Except.map]

theorem readClosing_append {mark : Token} {tokens after : List Token} {tag : Tag}
    (h : readClosing mark tokens = .ok (tag, after)) :
    ∃ written, tokens = written ++ after ∧
      ∀ after', readClosing mark (written ++ after') = .ok (tag, after') := by
  cases tokens with
  | nil => simp [readClosing, skipSpace] at h
  | cons name rest =>
    obtain ⟨space, hspace, hblank⟩ := skipSpace_eq_append rest
    simp only [readClosing, List.tail_cons] at h
    split at h
    · cases h
    · next t after' hs =>
      split at h
      · cases h
      · next hk =>
        simp only [Except.ok.injEq, Prod.mk.injEq] at h
        obtain ⟨rfl, rfl⟩ := h
        rw [hs] at hspace
        refine ⟨name :: (space ++ [t]), by simp [hspace], ?_⟩
        intro after
        have hskip : skipSpace (space ++ t :: after) = t :: after := by
          have ht : t.isWhitespace = false := by
            simp [Token.isWhitespace, Decidable.not_not.1 hk]
          simp [skipSpace, List.dropWhile_append_of_pos hblank, ht]
        simp [readClosing, hskip, hk]

theorem readSpaced?_append {mark : Token} {tokens after : List Token} {tag : Tag}
    (h : readSpaced? mark tokens = some (tag, after)) :
    ∃ written, tokens = written ++ after ∧
      ∀ after', readSpaced? mark (written ++ after') = some (tag, after') := by
  unfold readSpaced? at h
  split at h
  · next space name rest =>
    split at h
    · next hc =>
      cases hr : readOpening mark (name :: rest) with
      | error e => simp [hr, Except.toOption] at h
      | ok r =>
        simp only [hr, Except.toOption, Option.some.injEq] at h
        subst h
        obtain ⟨written, hw, hlocal⟩ := readOpening_append hr
        obtain ⟨name', written', rfl⟩ : ∃ name' written', written = name' :: written' := by
          cases written with
          | nil => simpa [readOpening, extent] using hlocal []
          | cons name' written' => exact ⟨name', written', rfl⟩
        obtain ⟨rfl, hrest⟩ := List.cons.inj hw
        refine ⟨space :: name :: written', by simp [hrest], ?_⟩
        intro after'
        have hopening : readOpening mark (name :: (written' ++ after')) = .ok (tag, after') :=
          hlocal after'
        simp [readSpaced?, hc, hopening, Except.toOption]
    · simp at h
  · simp at h

/-- `tag` is what is read at `mark` with the tokens `written`, whatever follows them. -/
structure ReadAs (mark : Token) (written : List Token) (tag : Tag) : Prop where
  next? : ∀ after, next? (mark :: (written ++ after)) = .ok (some (tag, after))
  written : (mark.kind = .tagStart ∨ mark.kind = .closingTagStart →
    written.head?.all Token.isTagName) → Written tag (mark :: written)

theorem readAs_of_readOpening {mark : Token} {tokens after : List Token} {tag : Tag}
    (hk : mark.kind = .tagStart) (h : readOpening mark tokens = .ok (tag, after)) :
    ∃ written, tokens = written ++ after ∧ ReadAs mark written tag := by
  obtain ⟨written, hw, hlocal⟩ := readOpening_append h
  obtain ⟨name, written', hw', hwritten⟩ := readOpening_eq_append h
  obtain rfl : written = name :: written' := List.append_cancel_right (hw.symm.trans hw')
  refine ⟨_, hw, ?_, ?_⟩
  · intro after'
    have hread := hlocal after'
    simp only [next?, hk, hread]
    rfl
  · intro hn
    exact hwritten [] (.joined hk) (by simpa using hn (.inl hk))

theorem readAs_of_readClosing {mark : Token} {tokens after : List Token} {tag : Tag}
    (hk : mark.kind = .closingTagStart) (h : readClosing mark tokens = .ok (tag, after)) :
    ∃ written, tokens = written ++ after ∧ ReadAs mark written tag := by
  obtain ⟨written, hw, hlocal⟩ := readClosing_append h
  obtain ⟨name, written', hw', hwritten⟩ := readClosing_eq_append h
  obtain rfl : written = name :: written' := List.append_cancel_right (hw.symm.trans hw')
  refine ⟨_, hw, ?_, ?_⟩
  · intro after'
    have hread := hlocal after'
    simp only [next?, hk, hread]
    rfl
  · intro hn
    exact hwritten hk (by simpa using hn (.inr hk))

theorem readAs_of_readSpaced? {mark : Token} {tokens after : List Token} {tag : Tag}
    (hk : mark.kind = .leftAngle) (h : readSpaced? mark tokens = some (tag, after)) :
    ∃ written, tokens = written ++ after ∧ ReadAs mark written tag := by
  obtain ⟨written, hw, hlocal⟩ := readSpaced?_append h
  obtain ⟨written', hw', hwritten⟩ := readSpaced?_eq_append h
  obtain rfl : written = written' := List.append_cancel_right (hw.symm.trans hw')
  refine ⟨_, hw, ?_, fun _ => hwritten hk⟩
  intro after'
  have hread := hlocal after'
  simp only [next?, hk, hread]

/-- A tag is found at a mark after a gap in which no mark stands directly before a name. -/
theorem exists_readAs_of_next? {tokens after : List Token} {tag : Tag}
    (h : next? tokens = .ok (some (tag, after))) :
    ∃ gap mark written, tokens = gap ++ mark :: (written ++ after) ∧
      (∀ t ∈ gap, t.kind ≠ .tagStart ∧ t.kind ≠ .closingTagStart) ∧ ReadAs mark written tag := by
  induction tokens with
  | nil => simp [next?] at h
  | cons t rest ih =>
    have found (h : ∃ written, rest = written ++ after ∧ ReadAs t written tag) :
        ∃ gap mark written, t :: rest = gap ++ mark :: (written ++ after) ∧
          (∀ t ∈ gap, t.kind ≠ .tagStart ∧ t.kind ≠ .closingTagStart) ∧
          ReadAs mark written tag := by
      obtain ⟨written, hw, hread⟩ := h
      exact ⟨[], t, written, by rw [hw]; rfl, by simp, hread⟩
    have skip (ht : t.kind ≠ .tagStart ∧ t.kind ≠ .closingTagStart)
        (h : next? rest = .ok (some (tag, after))) :
        ∃ gap mark written, t :: rest = gap ++ mark :: (written ++ after) ∧
          (∀ t ∈ gap, t.kind ≠ .tagStart ∧ t.kind ≠ .closingTagStart) ∧
          ReadAs mark written tag := by
      obtain ⟨gap, mark, written, hr, hgap, hread⟩ := ih h
      exact ⟨t :: gap, mark, written, by rw [hr]; rfl, List.forall_mem_cons.2 ⟨ht, hgap⟩, hread⟩
    unfold next? at h
    split at h
    · next hk =>
      cases hr : readOpening t rest with
      | error e => simp [hr, Except.map] at h
      | ok r =>
        simp only [hr, Except.map, Except.ok.injEq, Option.some.injEq] at h
        exact found (readAs_of_readOpening hk (h ▸ hr))
    · next hk =>
      cases hr : readClosing t rest with
      | error e => simp [hr, Except.map] at h
      | ok r =>
        simp only [hr, Except.map, Except.ok.injEq, Option.some.injEq] at h
        exact found (readAs_of_readClosing hk (h ▸ hr))
    · next hk =>
      split at h
      · next hs =>
        simp only [Except.ok.injEq, Option.some.injEq] at h
        exact found (readAs_of_readSpaced? hk (h ▸ hs))
      · exact skip (by simp [hk]) h
    · next h1 h2 _ => exact skip ⟨h1, h2⟩ h

end Tag

end ComponentTags
