import ComponentTags.Error
import ComponentTags.Tag.Grammar

/-!
# Attributes

Reading attributes from the tokens of a tag. A value reaches from its opening quote to the last
quote of that kind before the next attribute, and the quotes of that kind inside it must be even in
number.
-/

namespace ComponentTags

namespace Tag

def skipSpace (tokens : List Token) : List Token :=
  tokens.dropWhile Token.isWhitespace

/-- Whether a name, `=` and a quote come next, with white space allowed between them. -/
def startsAttribute : List Token → Bool
  | [] => false
  | key :: rest =>
    key.kind == .identifier &&
      match skipSpace rest with
      | [] => false
      | assign :: rest =>
        assign.kind == .assign &&
          match skipSpace rest with
          | [] => false
          | quote :: _ => quote.kind.isQuote

/-- The tokens before the next attribute, and those from it on. -/
def splitAtAttribute : List Token → List Token × List Token
  | [] => ([], [])
  | t :: rest =>
    if startsAttribute (t :: rest) then ([], t :: rest)
    else
      let (before, next) := splitAtAttribute rest
      (t :: before, next)

/-- The items before and after the last one in a class. -/
def splitAtLast {α : Type} (p : α → Bool) : List α → Option (List α × List α)
  | [] => none
  | a :: rest =>
    match splitAtLast p rest with
    | some (before, after) => some (a :: before, after)
    | none => if p a then some ([], rest) else none

def unexpected (tag : Text) (expected : String) (found : Token) : Error :=
  .unexpectedToken tag expected.toList found.text found.line

/-- Reads a value after its opening quote: the value as written, and the tokens of the attributes
that follow. -/
def readValue (tag : Text) (opening : Token) (tokens : List Token) :
    Except Error (Text × List Token) :=
  let (written, after) := splitAtAttribute tokens
  match splitAtLast (·.kind == opening.kind) written with
  | none => .error (.unterminatedString tag opening.line)
  | some (value, trailing) =>
    if (value.countP (·.kind == opening.kind)) % 2 = 1 then
      .error (.unterminatedString tag opening.line)
    else
      match trailing.find? (!·.isWhitespace) with
      | some stray => .error (unexpected tag "another attribute" stray)
      | none => .ok (value.flatMap Token.text, after)

/-- Reads the attribute whose name is `key` from the tokens after the name. -/
def readAttribute (tag : Text) (key : Token) (tokens : List Token) :
    Except Error (Text × List Token) :=
  if key.kind ≠ .identifier then .error (unexpected tag "an attribute name" key)
  else
    match skipSpace tokens with
    | [] => .error (unexpected tag "`=`" key)
    | assign :: rest =>
      if assign.kind ≠ .assign then .error (unexpected tag "`=`" assign)
      else
        match skipSpace rest with
        | [] => .error (unexpected tag "a quoted value" key)
        | opening :: rest =>
          if !opening.kind.isQuote then .error (unexpected tag "a quoted value" opening)
          else readValue tag opening rest

theorem skipSpace_eq_append (tokens : List Token) :
    ∃ space, tokens = space ++ skipSpace tokens ∧ Blank space :=
  ⟨tokens.takeWhile Token.isWhitespace, List.takeWhile_append_dropWhile.symm,
    fun _ h => List.all_eq_true.1 List.all_takeWhile _ h⟩

theorem splitAtAttribute_append (tokens : List Token) :
    (splitAtAttribute tokens).1 ++ (splitAtAttribute tokens).2 = tokens := by
  induction tokens with
  | nil => rfl
  | cons t rest ih =>
    unfold splitAtAttribute
    split
    · rfl
    · exact congrArg (t :: ·) ih

theorem splitAtLast_eq_append {α : Type} {p : α → Bool} {items before after : List α}
    (h : splitAtLast p items = some (before, after)) :
    ∃ a, items = before ++ a :: after ∧ p a := by
  induction items generalizing before with
  | nil => simp [splitAtLast] at h
  | cons a rest ih =>
    unfold splitAtLast at h
    split at h
    · next hr =>
      cases h
      obtain ⟨b, rfl, hb⟩ := ih hr
      exact ⟨b, rfl, hb⟩
    · split at h
      · next ha =>
        cases h
        exact ⟨a, rfl, ha⟩
      · simp at h

theorem readValue_eq_append {tag : Text} {opening : Token} {tokens after : List Token}
    {value : Text} (h : readValue tag opening tokens = .ok (value, after)) :
    ∃ inner finish space, tokens = inner ++ finish :: space ++ after ∧
      value = inner.flatMap Token.text ∧ inner.countP (·.kind == opening.kind) % 2 = 0 ∧
      finish.kind = opening.kind ∧ Blank space := by
  have hs := splitAtAttribute_append tokens
  simp only [readValue] at h
  split at h
  · cases h
  · next inner space hl =>
    split at h
    · cases h
    · next hc =>
      split at h
      · cases h
      · next hw =>
        cases h
        obtain ⟨finish, hi, hf⟩ := splitAtLast_eq_append hl
        refine ⟨inner, finish, space, by rw [← hi, hs], rfl, by omega, by simpa using hf, ?_⟩
        simpa [Blank] using hw

theorem readAttribute_eq_append {tag : Text} {key : Token} {tokens after : List Token}
    {value : Text} (h : readAttribute tag key tokens = .ok (value, after)) :
    key.kind = .identifier ∧ ∃ written, tokens = written ++ after ∧ WrittenValue value written := by
  obtain ⟨before, hb, hbb⟩ := skipSpace_eq_append tokens
  unfold readAttribute at h
  split at h
  · cases h
  · next hk =>
    refine ⟨Decidable.not_not.1 hk, ?_⟩
    split at h
    · cases h
    · next assign rest hs =>
      split at h
      · cases h
      · next ha =>
        obtain ⟨between, hm, hbm⟩ := skipSpace_eq_append rest
        split at h
        · cases h
        · next opening rest' hs' =>
          split at h
          · cases h
          · next ho =>
            obtain ⟨inner, finish, space, hv, rfl, he, hf, hbs⟩ := readValue_eq_append h
            refine ⟨_, ?_, .mk hbb (Decidable.not_not.1 ha) hbm (by simpa using ho) he hf hbs⟩
            rw [hb, hs, hm, hs', hv]
            simp

/-- Reads the attributes of a head in the order in which they are written. -/
def readAttributes (tag : Text) : List Token → Except Error (List (Text × Text))
  | [] => .ok []
  | key :: tokens =>
    match h : readAttribute tag key tokens with
    | .error e => .error e
    | .ok (value, after) =>
      have : after.length ≤ tokens.length := by
        obtain ⟨_, written, rfl, _⟩ := readAttribute_eq_append h
        simp
      (readAttributes tag after).map ((key.text, value) :: ·)
termination_by tokens => tokens.length

theorem writtenAttributes_of_readAttributes {tag : Text} {tokens : List Token}
    {entries : List (Text × Text)} (h : readAttributes tag tokens = .ok entries) :
    WrittenAttributes entries tokens := by
  fun_induction readAttributes tag tokens generalizing entries with
  | case1 => cases h; exact .nil
  | case2 => cases h
  | case3 key tokens value after hr _ ih =>
    cases ha : readAttributes tag after with
    | error e => simp [ha, Except.map] at h
    | ok rest =>
      simp only [ha, Except.map, Except.ok.injEq] at h
      subst h
      obtain ⟨hk, written, rfl, hw⟩ := readAttribute_eq_append hr
      exact .cons hk hw (ih ha)

end Tag

end ComponentTags
