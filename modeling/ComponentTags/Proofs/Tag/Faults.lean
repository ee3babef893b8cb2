import ComponentTags.Block.Pairing
import ComponentTags.Tag.List

/-!
# Structural errors

Reading the tags of a source and pairing them fail with errors of their own, which tell what is
wrong with the structure of the source. No other step has these errors.
-/

namespace ComponentTags

/-- Whether the error comes of reading tags or of pairing them. -/
def Error.isStructural : Error → Bool
  | .unterminatedString .. | .missingClosingBracket .. | .unexpectedToken .. => true
  | .missingClosingTag .. | .mismatchedClosingTag .. | .unmatchedClosingTag .. => true
  | _ => false

namespace Tag

variable {e : Error}

theorem eq_error_of_map {α β : Type} {r : Except Error α} {f : α → β} (h : r.map f = .error e) :
    r = .error e := by
  cases r with
  | error e' =>
    cases h
    rfl
  | ok => cases h

theorem isStructural_of_readValue {tag : Text} {opening : Token} {tokens : List Token}
    (h : readValue tag opening tokens = .error e) : e.isStructural := by
  unfold readValue at h
  simp only at h
  split at h
  · cases h
    rfl
  · split at h
    · cases h
      rfl
    · split at h
      · cases h
        rfl
      · cases h

theorem isStructural_of_readAttribute {tag : Text} {key : Token} {tokens : List Token}
    (h : readAttribute tag key tokens = .error e) : e.isStructural := by
  unfold readAttribute at h
  split at h
  · cases h
    rfl
  · split at h
    · cases h
      rfl
    · split at h
      · cases h
        rfl
      · split at h
        · cases h
          rfl
        · split at h
          · cases h
            rfl
          · exact isStructural_of_readValue h

theorem isStructural_of_readAttributes {tag : Text} {tokens : List Token}
    (h : readAttributes tag tokens = .error e) : e.isStructural := by
  fun_induction readAttributes tag tokens with
  | case1 => cases h
  | case2 key tokens e' hr =>
    cases h
    exact isStructural_of_readAttribute hr
  | case3 key tokens value after _ _ ih => exact ih (eq_error_of_map h)

theorem isStructural_of_readOpening {start : Token} {tokens : List Token}
    (h : readOpening start tokens = .error e) : e.isStructural := by
  simp only [readOpening] at h
  split at h
  · cases h
    rfl
  · cases h
    rfl
  · exact isStructural_of_readAttributes (eq_error_of_map h)

theorem isStructural_of_readClosing {start : Token} {tokens : List Token}
    (h : readClosing start tokens = .error e) : e.isStructural := by
  simp only [readClosing] at h
  split at h
  · cases h
    rfl
  · split at h
    · cases h
      rfl
    · cases h

theorem isStructural_of_next? {tokens : List Token} (h : next? tokens = .error e) :
    e.isStructural := by
  induction tokens with
  | nil => cases h
  | cons t rest ih =>
    unfold next? at h
    split at h
    · exact isStructural_of_readOpening (eq_error_of_map h)
    · exact isStructural_of_readClosing (eq_error_of_map h)
    · split at h
      · cases h
      · exact ih h
    · exact ih h

theorem isStructural_of_listOfTokens {tokens : List Token} (h : listOfTokens tokens = .error e) :
    e.isStructural := by
  fun_induction listOfTokens tokens with
  | case1 tokens e' hn =>
    cases h
    exact isStructural_of_next? hn
  | case2 => cases h
  | case3 tokens tag after _ _ ih => exact ih (eq_error_of_map h)

theorem isStructural_of_close {tags : List Tag} {finish : Tag} {pairs : List (Nat × Nat)}
    (h : Pairing.close tags finish pairs = .error e) : e.isStructural := by
  unfold Pairing.close at h
  split at h
  · cases h
    rfl
  · split at h
    · cases h
      rfl
    · cases h

theorem isStructural_of_pairsFrom {tags rest : List Tag} {pairs : List (Nat × Nat)}
    (h : Pairing.pairsFrom tags pairs rest = .error e) : e.isStructural := by
  induction rest generalizing tags pairs with
  | nil =>
    rw [Pairing.pairsFrom] at h
    split at h
    · cases h
      rfl
    · cases h
  | cons tag rest ih =>
    rw [Pairing.pairsFrom] at h
    split at h
    · cases hc : Pairing.close tags tag pairs with
      | error e' =>
        rw [hc] at h
        cases h
        exact isStructural_of_close hc
      | ok pairs' =>
        rw [hc] at h
        exact ih h
    · exact ih h

/-- The errors of a source whose tags cannot be read or paired are structural. -/
theorem isStructural_of_structure {source : Text}
    (h : (list source).bind pairs = .error e) : e.isStructural := by
  cases hl : list source with
  | error e' =>
    rw [hl] at h
    cases h
    exact isStructural_of_listOfTokens hl
  | ok tags =>
    rw [hl] at h
    exact isStructural_of_pairsFrom h

end Tag

end ComponentTags
