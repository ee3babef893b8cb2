import ComponentTags.Text.LetterCase

/-!
# Lowered text

Lower case leaves text alone that is in lower case already. Beyond ASCII this is a property of the
case data: what a run maps a letter to is not itself mapped by a run.
-/

namespace ComponentTags.Text

namespace CaseRun

def image (r : CaseRun) (code : Nat) : Nat :=
  ((code : Int) + r.shift).toNat

/-- Whether a run contains every second code point from its first one on, if not only that one. -/
def isSparse (r : CaseRun) : Bool :=
  Nat.beq r.step 2 || Nat.beq r.first r.last

/-- Whether the run has no code points in common with `first`, … up to `last`, of which every second
one counts if `sparse`. Only ends are compared, so that it can be checked for all the case data. -/
def avoids (r : CaseRun) (first last : Nat) (sparse : Bool) : Bool :=
  Nat.blt last r.first || Nat.blt r.last first ||
    sparse && r.isSparse && Nat.beq ((first + r.first) % 2) 1

/-- Whether the images of a run are characters. -/
def isValid (r : CaseRun) : Bool :=
  0 ≤ (r.first : Int) + r.shift && ((r.last : Int) + r.shift < 0xD800 ||
    0xDFFF < (r.first : Int) + r.shift && (r.last : Int) + r.shift < 0x110000)

theorem bounds_of_contains {r : CaseRun} {code : Nat} (h : r.contains code) :
    r.first ≤ code ∧ code ≤ r.last := by
  simp only [contains, Bool.and_eq_true, decide_eq_true_eq] at h
  exact h.1

theorem even_of_contains {r : CaseRun} {code : Nat} (h : r.contains code) (hr : r.isSparse) :
    (code - r.first) % 2 = 0 := by
  have hbounds := bounds_of_contains h
  simp only [contains, Bool.and_eq_true, beq_iff_eq] at h
  simp only [isSparse, Bool.or_eq_true, Nat.beq_eq] at hr
  rcases hr with hr | hr
  · rw [← hr]
    exact h.2
  · omega

theorem not_contains_of_avoids {r : CaseRun} {first last code : Nat} {sparse : Bool}
    (h : r.avoids first last sparse) (hcode : first ≤ code ∧ code ≤ last)
    (hsparse : sparse → (code - first) % 2 = 0) : r.contains code = false := by
  rw [Bool.eq_false_iff]
  intro hcontains
  have hbounds := bounds_of_contains hcontains
  simp only [avoids, Bool.or_eq_true, Bool.and_eq_true, Nat.blt_eq, Nat.beq_eq] at h
  rcases h with (h | h) | ⟨⟨hs, hr⟩, hodd⟩
  · omega
  · omega
  · have := even_of_contains hcontains hr
    have := hsparse hs
    omega

theorem image_eq {r : CaseRun} (h : r.isValid) {code : Nat} (hcode : r.contains code) :
    r.image code = r.image r.first + (code - r.first) ∧ r.image code ≤ r.image r.last ∧
      (r.image code).isValidChar := by
  have hbounds := bounds_of_contains hcode
  simp only [isValid, Bool.and_eq_true, Bool.or_eq_true, decide_eq_true_eq] at h
  unfold image Nat.isValidChar
  omega

end CaseRun

/-- The code points that lower case does not leave as they are. -/
def capitals : List CaseRun :=
  ⟨0x41, 0x5A, 1, 32⟩ :: ⟨0x130, 0x130, 1, 0⟩ :: lowerRuns

/-- No letter that a run gives is a capital. -/
theorem capitals_avoid_images : lowerRuns.all (fun r =>
    r.isValid && capitals.all (·.avoids (r.image r.first) (r.image r.last) r.isSparse)) := by
  decide +kernel

/-- Whether lower case leaves a character as it is. -/
def isLowered (c : Char) : Bool :=
  !capitals.any (·.contains c.toNat)

theorem isLowered_iff {c : Char} :
    isLowered c ↔ ¬ (0x41 ≤ c.toNat ∧ c.toNat ≤ 0x5A) ∧ c.toNat ≠ 0x130 ∧
      ∀ r ∈ lowerRuns, r.contains c.toNat = false := by
  simp only [isLowered, capitals, CaseRun.contains, List.any_cons, Nat.mod_one, beq_self_eq_true,
    Bool.and_true, Bool.not_eq_true', Bool.or_eq_false_iff, Bool.and_eq_false_iff,
    decide_eq_false_iff_not, List.any_eq_false]
  grind

theorem isLowered_image {r : CaseRun} (hr : r ∈ lowerRuns) {code : Nat} (hcode : r.contains code) :
    isLowered (Char.ofNat (r.image code)) := by
  have htable := List.all_eq_true.1 capitals_avoid_images r hr
  rw [Bool.and_eq_true, List.all_eq_true] at htable
  obtain ⟨hvalid, havoid⟩ := htable
  obtain ⟨himage, hlast, hchar⟩ := CaseRun.image_eq hvalid hcode
  have hnot : ∀ s ∈ capitals, s.contains (r.image code) = false := by
    intro s hs
    refine CaseRun.not_contains_of_avoids (havoid s hs) (by omega) fun hsparse => ?_
    rw [himage, Nat.add_sub_cancel_left]
    exact CaseRun.even_of_contains hcode hsparse
  have hcode : (Char.ofNat (r.image code)).toNat = r.image code := by
    rw [Char.ofNat, dif_pos hchar]
    rfl
  simpa [isLowered, hcode] using hnot

theorem lowerChar_of_isLowered {c : Char} (h : isLowered c) :
    c.toNat ≠ 0x3A3 ∧ lowerChar c = [c] := by
  obtain ⟨hascii, hdotted, hruns⟩ := isLowered_iff.1 h
  constructor
  · intro hc
    have hsigma : ∃ r ∈ lowerRuns, r.contains 0x3A3 := by decide
    obtain ⟨r, hr, hcontains⟩ := hsigma
    rw [← hc, hruns r hr] at hcontains
    cases hcontains
  · have himage : CaseRun.image? lowerRuns c.toNat = none := by
      simpa [CaseRun.image?] using hruns
    simp [lowerChar, toLower_of_not_capital hascii, hdotted, himage]

theorem isLowered_of_ascii {c : Char} (h : c.toNat < 0x80)
    (hc : ¬ (0x41 ≤ c.toNat ∧ c.toNat ≤ 0x5A)) : isLowered c := by
  have hbeyond : ∀ r ∈ lowerRuns, 0x80 ≤ r.first := by decide +kernel
  refine isLowered_iff.2 ⟨hc, by omega, fun r hr => Bool.eq_false_iff.2 fun hcontains => ?_⟩
  have := hbeyond r hr
  have := CaseRun.bounds_of_contains hcontains
  omega

theorem isLowered_of_mem_lowerChar {c d : Char} (h : d ∈ lowerChar c) : isLowered d := by
  unfold lowerChar at h
  split at h
  · next hascii =>
    have hletters : ∀ n < 0x80, (Char.ofNat n).toLower.toNat < 0x80 ∧
        ¬ (0x41 ≤ (Char.ofNat n).toLower.toNat ∧ (Char.ofNat n).toLower.toNat ≤ 0x5A) := by
      decide +kernel
    obtain ⟨hlt, hnot⟩ := hletters c.toNat hascii
    rw [List.mem_singleton] at h
    rw [Char.ofNat_toNat, ← h] at hlt hnot
    exact isLowered_of_ascii hlt hnot
  · next hascii =>
    split at h
    · have hdot : isLowered (Char.ofNat 0x307) := by decide +kernel
      rcases List.mem_cons.1 h with rfl | h
      · exact isLowered_of_ascii (by decide) (by decide)
      · rw [List.mem_singleton.1 h]
        exact hdot
    · next hdotted =>
      rw [List.mem_singleton] at h
      subst h
      cases himage : CaseRun.image? lowerRuns c.toNat with
      | none =>
        have hruns : ∀ r ∈ lowerRuns, r.contains c.toNat = false := by
          simpa [CaseRun.image?] using himage
        have hc : ¬ (0x41 ≤ c.toNat ∧ c.toNat ≤ 0x5A) := by omega
        exact isLowered_iff.2 ⟨hc, hdotted, hruns⟩
      | some code =>
        rw [CaseRun.image?, Option.map_eq_some_iff] at himage
        obtain ⟨r, hfind, rfl⟩ := himage
        have hcontains := List.find?_some hfind
        exact isLowered_image (List.mem_of_find?_eq_some hfind) hcontains

theorem isLowered_of_mem_lower {s : Text} {d : Char} (h : d ∈ lower s) : isLowered d := by
  suffices ∀ before, d ∈ lowerAfter before s → isLowered d from this [] h
  clear h
  induction s with
  | nil => simp [lowerAfter]
  | cons c s ih =>
    intro before h
    rw [lowerAfter] at h
    rcases List.mem_append.1 h with h | h
    · split at h
      · have hsigma : ∀ b : Bool, isLowered (Char.ofNat (if b then 0x3C2 else 0x3C3)) := by
          decide +kernel
        rw [List.mem_singleton] at h
        subst h
        exact hsigma _
      · exact isLowered_of_mem_lowerChar h
    · exact ih _ h

theorem lower_of_isLowered {s : Text} (h : ∀ c ∈ s, isLowered c) : lower s = s := by
  suffices ∀ before, lowerAfter before s = s from this []
  induction s with
  | nil => exact fun _ => rfl
  | cons c s ih =>
    intro before
    obtain ⟨hsigma, hc⟩ := lowerChar_of_isLowered (h c List.mem_cons_self)
    rw [lowerAfter, if_neg hsigma, hc, ih fun d hd => h d (List.mem_cons_of_mem _ hd)]
    rfl

@[simp] theorem lower_lower (s : Text) : lower (lower s) = lower s :=
  lower_of_isLowered fun _ => isLowered_of_mem_lower

end ComponentTags.Text
