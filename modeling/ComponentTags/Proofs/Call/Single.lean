import ComponentTags.Call
import ComponentTags.Proofs.Text.Ends

/-!
# Single expressions

A value that is passed live stands between double braces and holds no others once a sign and the
white space at each end are gone. What is left of it is the expression of the call.
-/

namespace ComponentTags.Call

open Text (StripsTo)

abbrev openingBraces : Text := ['\x7b', '\x7b']

abbrev closingBraces : Text := ['\x7d', '\x7d']

/-- A sign of white space control. -/
def isSign (c : Char) : Bool :=
  c = '-' || c = '+'

/-- At most one sign in front is taken away. -/
inductive Unsigned : Text → Text → Prop
  | sign {c : Char} {s : Text} (hc : isSign c) : Unsigned (c :: s) s
  | bare {s : Text} (hs : ∀ c ∈ s.head?, ¬isSign c) : Unsigned s s

theorem unsigned_iff {s t : Text} : Unsigned s t ↔ dropSign s = t := by
  constructor
  · intro h
    cases h with
    | @sign c s hc =>
      simp only [isSign, Bool.or_eq_true, decide_eq_true_eq] at hc
      rcases hc with rfl | rfl <;> rfl
    | bare hs =>
      unfold dropSign
      split
      · exact absurd rfl (hs '-' rfl)
      · exact absurd rfl (hs '+' rfl)
      · rfl
  · rintro rfl
    unfold dropSign
    split
    · exact .sign rfl
    · exact .sign rfl
    · next hminus hplus =>
      refine .bare fun c hc => ?_
      obtain ⟨rest, rfl⟩ := List.head?_eq_some_iff.1 hc
      simp only [isSign, Bool.or_eq_true, decide_eq_true_eq, not_or]
      exact ⟨fun h => hminus rest (h ▸ rfl), fun h => hplus rest (h ▸ rfl)⟩

/-- What is left of the inside of a value without a sign and white space at each end. -/
def TrimsTo (inner e : Text) : Prop :=
  ∃ first middle, Unsigned inner first ∧ Unsigned first.reverse middle.reverse ∧
    StripsTo Text.isBlank middle e

/-- A value that is passed live, and the expression it is. -/
structure Live (value e : Text) : Prop where
  enclosed : ∃ inner, value = openingBraces ++ inner ++ closingBraces ∧ TrimsTo inner e
  nonempty : e ≠ []
  noOpening : ¬openingBraces <:+: e
  noClosing : ¬closingBraces <:+: e

theorem trimsTo_iff {inner e : Text} :
    TrimsTo inner e ↔ Text.trim (dropSign (dropSign inner).reverse).reverse = e := by
  constructor
  · rintro ⟨first, middle, hfront, hback, htrim⟩
    rw [unsigned_iff.1 hfront, unsigned_iff.1 hback, List.reverse_reverse]
    exact htrim.stripWhile_eq
  · rintro rfl
    exact ⟨_, _, unsigned_iff.2 rfl, unsigned_iff.2 (List.reverse_reverse _).symm,
      Text.stripsTo_stripWhile _ _⟩

theorem Unsigned.exists_append {s t : Text} (h : Unsigned s t) :
    ∃ sign, s = sign ++ t ∧ ∀ c ∈ sign, isSign c := by
  cases h with
  | @sign c _ hc => exact ⟨[c], rfl, by simpa using hc⟩
  | bare => exact ⟨[], rfl, by simp⟩

/-- An expression has nothing but signs and white space around it. -/
theorem TrimsTo.exists_around {inner e : Text} (h : TrimsTo inner e) :
    ∃ before after, inner = before ++ e ++ after ∧ (∀ c ∈ before, isSign c ∨ Text.isBlank c) ∧
      ∀ c ∈ after, isSign c ∨ Text.isBlank c := by
  obtain ⟨first, middle, hfront, hback, ⟨lead, trail, hmiddle, hlead, htrail⟩, -, -⟩ := h
  obtain ⟨front, rfl, hfrontSign⟩ := hfront.exists_append
  obtain ⟨back, hfirst, hbackSign⟩ := hback.exists_append
  refine ⟨front ++ lead, trail ++ back.reverse, ?_, fun c hc => ?_, fun c hc => ?_⟩
  · rw [← List.reverse_reverse first, hfirst, hmiddle]
    simp
  · exact (List.mem_append.1 hc).imp (hfrontSign c) (hlead c)
  · rw [List.mem_append, List.mem_reverse] at hc
    exact hc.symm.imp (hbackSign c) (htrail c)

theorem singleExpression?_eq_some_iff {value e : Text} :
    singleExpression? value = some e ↔ Live value e := by
  simp only [singleExpression?, Option.bind_eq_bind, Option.bind_eq_some_iff,
    Text.afterBeginning?_eq_some_iff, Text.beforeEnding?_eq_some_iff]
  constructor
  · rintro ⟨_, rfl, inner, rfl, h⟩
    split at h
    · cases h
    · next hfree =>
      cases h
      simp only [Bool.or_eq_true, List.isEmpty_iff, Text.contains_iff_infix, not_or] at hfree
      exact ⟨⟨inner, by simp, trimsTo_iff.2 rfl⟩, hfree.1.1, hfree.1.2, hfree.2⟩
  · rintro ⟨⟨inner, rfl, htrims⟩, hne, hopening, hclosing⟩
    refine ⟨_, List.append_assoc .., inner, rfl, ?_⟩
    rw [trimsTo_iff.1 htrims, if_neg]
    simp only [Bool.or_eq_true, List.isEmpty_iff, Text.contains_iff_infix, not_or]
    exact ⟨⟨hne, hopening⟩, hclosing⟩

theorem valueExpression_eq_parens_iff {value e : Text} :
    valueExpression value = '(' :: e ++ [')'] ↔ Live value e := by
  rw [← singleExpression?_eq_some_iff, valueExpression]
  cases singleExpression? value with
  | some e' => simp
  | none => simp [Text.quote]

end ComponentTags.Call
