import ComponentTags.Text.Basic
import ComponentTags.Text.LetterCase.Table

/-!
# Letter case

Full lower and upper case of a text. Lower case depends on context for one letter: a capital sigma
after a cased letter and before none is written in its final form.
-/

namespace ComponentTags.Text

/-- The case-blind form of ASCII letters. Other characters stay. -/
def asciiLower (s : Text) : Text :=
  s.map Char.toLower

private def inRanges (ranges : List (Nat × Nat)) (c : Char) : Bool :=
  ranges.any fun r => r.1 ≤ c.toNat && c.toNat ≤ r.2

def isCased (c : Char) : Bool :=
  inRanges casedRanges c

def isCaseIgnorable (c : Char) : Bool :=
  inRanges ignorableRanges c

/-- Whether the first character that counts for case is a cased one. -/
def meetsCased (s : Text) : Bool :=
  match s.dropWhile isCaseIgnorable with
  | [] => false
  | c :: _ => isCased c

/-- Lower case of a character other than a capital sigma. -/
def lowerChar (c : Char) : Text :=
  if c.toNat < 0x80 then [c.toLower]
  else if c.toNat = 0x130 then ['i', Char.ofNat 0x307]
  else [((CaseRun.image? lowerRuns c.toNat).map Char.ofNat).getD c]

/-- Lower case of the text after `before`, which is given in reverse. -/
def lowerAfter (before : Text) : Text → Text
  | [] => []
  | c :: s =>
    let image :=
      if c.toNat = 0x3A3 then
        [Char.ofNat (if meetsCased before && !meetsCased s then 0x3C2 else 0x3C3)]
      else lowerChar c
    image ++ lowerAfter (c :: before) s

def lower (s : Text) : Text :=
  lowerAfter [] s

/-- On ASCII text lower case is that of the single letters. -/
theorem lower_of_ascii {s : Text} (h : ∀ c ∈ s, c.toNat < 0x80) : lower s = asciiLower s := by
  suffices ∀ before, lowerAfter before s = asciiLower s from this []
  induction s with
  | nil => intro; rfl
  | cons c s ih =>
    intro before
    have hc := h c (by simp)
    have := ih (fun c hc => h c (by simp [hc])) (c :: before)
    simp [lowerAfter, lowerChar, asciiLower, show c.toNat ≠ 0x3A3 by omega, hc, this]

theorem toLower_of_not_capital {c : Char} (h : ¬ (65 ≤ c.toNat ∧ c.toNat ≤ 90)) :
    c.toLower = c := by
  unfold Char.toLower
  refine dif_neg ?_
  rw [ge_iff_le, UInt32.le_iff_toNat_le, UInt32.le_iff_toNat_le]
  exact h

/-- What lower case takes from a character is the same for both cases of an ASCII letter. -/
theorem case_toLower (c : Char) :
    lowerChar c.toLower = lowerChar c ∧ isCased c.toLower = isCased c ∧
      isCaseIgnorable c.toLower = isCaseIgnorable c ∧
      (c.toLower.toNat = 0x3A3 ↔ c.toNat = 0x3A3) := by
  by_cases h : 65 ≤ c.toNat ∧ c.toNat ≤ 90
  · have hletters : ∀ n < 26, let c := Char.ofNat (65 + n);
        lowerChar c.toLower = lowerChar c ∧ isCased c.toLower = isCased c ∧
          isCaseIgnorable c.toLower = isCaseIgnorable c ∧
          (c.toLower.toNat = 0x3A3 ↔ c.toNat = 0x3A3) := by
      decide +kernel
    have hc := hletters (c.toNat - 65) (by omega)
    rwa [Nat.add_sub_cancel' h.1, Char.ofNat_toNat] at hc
  · simp [toLower_of_not_capital h]

theorem meetsCased_asciiLower (s : Text) : meetsCased (asciiLower s) = meetsCased s := by
  induction s with
  | nil => rfl
  | cons c s ih =>
    obtain ⟨-, hcased, hignorable, -⟩ := case_toLower c
    rw [asciiLower] at ih ⊢
    rw [meetsCased, meetsCased, List.map_cons, List.dropWhile_cons, List.dropWhile_cons, hignorable]
    cases isCaseIgnorable c with
    | true => exact ih
    | false => exact hcased

theorem lower_asciiLower (s : Text) : lower (asciiLower s) = lower s := by
  suffices ∀ before, lowerAfter (asciiLower before) (asciiLower s) = lowerAfter before s from
    this []
  induction s with
  | nil => intro before; rfl
  | cons c s ih =>
    intro before
    obtain ⟨hlower, -, -, hsigma⟩ := case_toLower c
    have hrest := ih (c :: before)
    have hbefore := meetsCased_asciiLower before
    have hafter := meetsCased_asciiLower s
    simp only [asciiLower, List.map_cons] at hrest hbefore hafter ⊢
    rw [lowerAfter, lowerAfter, hrest, hbefore, hafter, hlower]
    simp only [hsigma]

def upperChar (c : Char) : Text :=
  if c.toNat < 0x80 then [c.toUpper]
  else match longUppers.find? (·.1 == c.toNat) with
    | some (_, image) => image.map Char.ofNat
    | none => [((CaseRun.image? upperRuns c.toNat).map Char.ofNat).getD c]

def upper (s : Text) : Text :=
  s.flatMap upperChar

/-- Equality that ignores the case of ASCII letters only. -/
def eqIgnoringCase (s t : Text) : Bool :=
  asciiLower s == asciiLower t

/-- Texts that agree but for the case of ASCII letters agree in lower case. -/
theorem lower_eq_of_eqIgnoringCase {s t : Text} (h : eqIgnoringCase s t) : lower s = lower t := by
  rw [← lower_asciiLower s, ← lower_asciiLower t, eq_of_beq h]

end ComponentTags.Text
