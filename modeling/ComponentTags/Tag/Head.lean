import ComponentTags.Tag.Attribute

/-!
# Tag heads

Reading one tag from the tokens after its opening mark. A value may hold `>`, so the head ends at
the first `>` or `/>` before which the quotes that opened the latest value are even in number.
-/

namespace ComponentTags

namespace Tag

/-! ## The extent of a head -/

/-- What the tokens of a head say about the quoted value they may be in. -/
structure ValueState where
  /-- The quote that opened the latest value. -/
  quote : Option Token.Kind := none
  /-- Whether the value is still open: its quotes so far are odd in number. -/
  inside : Bool := false
  /-- Whether the latest token other than white space was `=`. -/
  afterAssign : Bool := false
deriving DecidableEq

def ValueState.step (s : ValueState) (t : Token) : ValueState :=
  let s' := { s with
    afterAssign := if t.isWhitespace then s.afterAssign else t.kind == .assign }
  if !t.kind.isQuote then s'
  else if !s.inside && s.afterAssign then { s' with quote := some t.kind, inside := true }
  else if s.quote == some t.kind then { s' with inside := !s.inside }
  else s'

/-- The tokens between the name and the terminator of a tag, the terminator, and the tokens after
it. -/
structure Extent where
  body : List Token
  terminator : Token
  after : List Token

/-- Finds the terminator of a head. Without one, the answer tells whether a value is still open. -/
def extent (s : ValueState) : List Token → Except Bool Extent
  | [] => .error s.inside
  | t :: rest =>
    if (t.kind == .rightAngle || t.kind == .selfClosing) && !s.inside then
      .ok { body := [], terminator := t, after := rest }
    else
      (extent (s.step t) rest).map fun e => { e with body := t :: e.body }

theorem extent_eq_append {s : ValueState} {tokens : List Token} {e : Extent}
    (h : extent s tokens = .ok e) :
    tokens = e.body ++ e.terminator :: e.after ∧
      (e.terminator.kind = .rightAngle ∨ e.terminator.kind = .selfClosing) := by
  induction tokens generalizing s e with
  | nil => simp [extent] at h
  | cons t rest ih =>
    unfold extent at h
    split at h
    · next ht =>
      cases h
      simpa using (Bool.and_eq_true_iff.1 ht).1
    · cases hr : extent (s.step t) rest with
      | error b => simp [hr, Except.map] at h
      | ok e' =>
        simp only [hr, Except.map, Except.ok.injEq] at h
        subst h
        exact ⟨congrArg (t :: ·) (ih hr).1, (ih hr).2⟩

/-! ## Whole tags -/

/-- Reads a start tag or a self-closing tag from its name on. -/
def readOpening (start : Token) (tokens : List Token) : Except Error (Tag × List Token) :=
  let name := (tokens.head?.map Token.text).getD []
  match extent {} tokens.tail with
  | .error true => .error (.unterminatedString name start.line)
  | .error false => .error (.missingClosingBracket name start.line)
  | .ok head =>
    (readAttributes name (skipSpace head.body)).map fun attributes =>
      ({ name
         kind := if head.terminator.kind == .selfClosing then .selfClosing else .opening
         attributes := Keyed.ofList attributes
         span := ⟨start.start, head.terminator.stop⟩
         line := start.line },
       head.after)

/-- Reads an end tag from its name on. -/
def readClosing (start : Token) (tokens : List Token) : Except Error (Tag × List Token) :=
  let name := (tokens.head?.map Token.text).getD []
  match skipSpace tokens.tail with
  | [] => .error (.missingClosingBracket ('/' :: name) start.line)
  | t :: after =>
    if t.kind ≠ .rightAngle then .error (unexpected ('/' :: name) "`>`" t)
    else
      .ok ({ name, kind := .closing, attributes := [], span := ⟨start.start, t.stop⟩
             line := start.line }, after)

/-- Reads a tag whose name is set off from the `<` by white space. Anything but a well-formed head
is no tag. -/
def readSpaced? (start : Token) : List Token → Option (Tag × List Token)
  | space :: name :: rest =>
    if space.isWhitespace && name.isTagName then (readOpening start (name :: rest)).toOption
    else none
  | _ => none

theorem readOpening_eq_append {mark : Token} {tokens after : List Token} {tag : Tag}
    (h : readOpening mark tokens = .ok (tag, after)) :
    ∃ name written, tokens = name :: (written ++ after) ∧
      ∀ before, OpeningMark mark before → name.isTagName →
        Written tag (mark :: (before ++ name :: written)) := by
  cases tokens with
  | nil => simp [readOpening, extent] at h
  | cons name rest =>
    simp only [readOpening] at h
    split at h
    · cases h
    · cases h
    · next head hx =>
      obtain ⟨hr, hk⟩ := extent_eq_append hx
      obtain ⟨between, hb, hbb⟩ := skipSpace_eq_append head.body
      cases ha : readAttributes name.text (skipSpace head.body) with
      | error e => simp [ha, Except.map] at h
      | ok entries =>
        simp only [List.head?_cons, Option.map_some, Option.getD_some, ha, Except.map,
          Except.ok.injEq, Prod.mk.injEq] at h
        obtain ⟨rfl, rfl⟩ := h
        refine ⟨name, head.body ++ [head.terminator], by simpa using hr, fun before hm hn => ?_⟩
        rw [hb]
        refine .opening hm hn hbb (writtenAttributes_of_readAttributes ha) ?_
        rcases hk with hk | hk <;> simp [hk]

theorem readClosing_eq_append {mark : Token} {tokens after : List Token} {tag : Tag}
    (h : readClosing mark tokens = .ok (tag, after)) :
    ∃ name written, tokens = name :: (written ++ after) ∧
      (mark.kind = .closingTagStart → name.isTagName → Written tag (mark :: name :: written)) := by
  cases tokens with
  | nil => simp [readClosing, skipSpace] at h
  | cons name rest =>
    obtain ⟨between, hb, hbb⟩ := skipSpace_eq_append rest
    simp only [readClosing, List.tail_cons] at h
    split at h
    · cases h
    · next t after' hs =>
      split at h
      · cases h
      · next hk =>
        simp only [Except.ok.injEq, Prod.mk.injEq] at h
        obtain ⟨rfl, rfl⟩ := h
        rw [hs] at hb
        exact ⟨name, between ++ [t], by simp [hb],
          fun hm hn => .closing hm hn hbb (Decidable.not_not.1 hk)⟩

theorem readSpaced?_eq_append {mark : Token} {tokens after : List Token} {tag : Tag}
    (h : readSpaced? mark tokens = some (tag, after)) :
    ∃ written, tokens = written ++ after ∧
      (mark.kind = .leftAngle → Written tag (mark :: written)) := by
  unfold readSpaced? at h
  split at h
  · next space name rest =>
    split at h
    · next hc =>
      cases hr : readOpening mark (name :: rest) with
      | error e => simp [hr, Except.toOption] at h
      | ok r =>
        simp only [hr, Except.toOption, Option.some.injEq] at h
        subst h
        obtain ⟨name', written, ht, hw⟩ := readOpening_eq_append hr
        obtain ⟨rfl, rfl⟩ := List.cons.inj ht
        simp only [Bool.and_eq_true] at hc
        exact ⟨space :: name :: written, rfl, fun hm => hw [space] (.spaced hm hc.1) hc.2⟩
    · simp at h
  · simp at h

end Tag

end ComponentTags
