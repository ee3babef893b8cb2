import ComponentTags.Tag.Head

/-!
# Tags of a source

Tags are looked for from the front, and the search goes on behind each tag that is found. A `<` set
off from a name by white space opens a tag only if a well-formed head follows.
-/

namespace ComponentTags

namespace Tag

/-- The next tag among the tokens and the tokens after it. -/
def next? : List Token → Except Error (Option (Tag × List Token))
  | [] => .ok none
  | t :: rest =>
    match t.kind with
    | .tagStart => (readOpening t rest).map some
    | .closingTagStart => (readClosing t rest).map some
    | .leftAngle =>
      match readSpaced? t rest with
      | some found => .ok (some found)
      | none => next? rest
    | _ => next? rest

/-- What is read is a gap without a tag and then the tokens of the tag. That a name follows an
opening mark is known of the tokens of a source. -/
theorem next?_eq_append {tokens after : List Token} {tag : Tag}
    (h : next? tokens = .ok (some (tag, after))) :
    ∃ gap mark written, tokens = gap ++ mark :: (written ++ after) ∧
      ((mark.kind = .tagStart ∨ mark.kind = .closingTagStart →
          (written ++ after).head?.all Token.isTagName) →
        Written tag (mark :: written)) := by
  induction tokens with
  | nil => simp [next?] at h
  | cons t rest ih =>
    have skip (h : next? rest = .ok (some (tag, after))) :
        ∃ gap mark written, t :: rest = gap ++ mark :: (written ++ after) ∧
          ((mark.kind = .tagStart ∨ mark.kind = .closingTagStart →
              (written ++ after).head?.all Token.isTagName) →
            Written tag (mark :: written)) := by
      obtain ⟨gap, mark, written, hr, hw⟩ := ih h
      exact ⟨t :: gap, mark, written, by rw [hr]; rfl, hw⟩
    unfold next? at h
    split at h
    · next hk =>
      cases hr : readOpening t rest with
      | error e => simp [hr, Except.map] at h
      | ok r =>
        simp only [hr, Except.map, Except.ok.injEq, Option.some.injEq] at h
        subst h
        obtain ⟨name, written, rfl, hw⟩ := readOpening_eq_append hr
        exact ⟨[], t, name :: written, rfl,
          fun hn => hw [] (.joined hk) (by simpa using hn (.inl hk))⟩
    · next hk =>
      cases hr : readClosing t rest with
      | error e => simp [hr, Except.map] at h
      | ok r =>
        simp only [hr, Except.map, Except.ok.injEq, Option.some.injEq] at h
        subst h
        obtain ⟨name, written, rfl, hw⟩ := readClosing_eq_append hr
        exact ⟨[], t, name :: written, rfl, fun hn => hw hk (by simpa using hn (.inr hk))⟩
    · next hk =>
      split at h
      · next found hs =>
        simp only [Except.ok.injEq, Option.some.injEq] at h
        subst h
        obtain ⟨written, rfl, hw⟩ := readSpaced?_eq_append hs
        exact ⟨[], t, written, rfl, fun _ => hw hk⟩
      · exact skip h
    · exact skip h

theorem next?_length {tokens after : List Token} {tag : Tag}
    (h : next? tokens = .ok (some (tag, after))) : after.length < tokens.length := by
  obtain ⟨gap, mark, written, rfl, _⟩ := next?_eq_append h
  simp only [List.length_append, List.length_cons]
  omega

/-- All tags among the tokens, in order. -/
def listOfTokens (tokens : List Token) : Except Error (List Tag) :=
  match h : next? tokens with
  | .error e => .error e
  | .ok none => .ok []
  | .ok (some (tag, after)) =>
    have := next?_length h
    (listOfTokens after).map (tag :: ·)
termination_by tokens.length

/-- All tags of a source, in order. -/
def list (source : Text) : Except Error (List Tag) :=
  listOfTokens (Token.list source)

/-- The first tag among the tokens that is not an end tag. What comes after it is not read. -/
def firstHeadOfTokens (tokens : List Token) : Except Error (Option Tag) :=
  match h : next? tokens with
  | .error e => .error e
  | .ok none => .ok none
  | .ok (some (tag, after)) =>
    have := next?_length h
    if tag.isClosing then firstHeadOfTokens after else .ok (some tag)
termination_by tokens.length

/-- The first tag of a source that is not an end tag. -/
def firstHead (source : Text) : Except Error (Option Tag) :=
  firstHeadOfTokens (Token.list source)

end Tag

end ComponentTags
