import Mathlib
import ComponentTags.Proofs.Call.Quoting

/-!
# Values that are passed live

A value is passed live if it is a single expression between braces; any other value is a literal.
Nothing stands behind a live value, as long as the braces at its end are the first ones that close
it. They are not if the expression ends with a brace of its own right before them: the two that come
first are that one and one of those at the end.
-/

namespace ComponentTags

namespace Text

/-- `part` stands in the text at its very end or not at all. -/
def OnlyAtEnd (part s : Text) : Prop :=
  ∀ before after, s = before ++ part ++ after → after = []

/-- A doubled character is found between others as soon as it is found among them. -/
theorem infix_double_append_iff {c : Char} {lead s trail : Text} (hlead : c ∉ lead)
    (htrail : c ∉ trail) : [c, c] <:+: lead ++ s ++ trail ↔ [c, c] <:+: s := by
  have hfront (front t : Text) (hfront : c ∉ front) : [c, c] <:+: front ++ t ↔ [c, c] <:+: t := by
    induction front with
    | nil => rfl
    | cons d front ih =>
      rw [List.mem_cons, not_or] at hfront
      rw [List.cons_append, List.infix_cons_iff, ih hfront.2]
      simp [List.cons_prefix_cons, hfront.1]
  have hreverse (t : Text) : [c, c] <:+: t.reverse ↔ [c, c] <:+: t := by
    have h : [c, c].reverse <:+: t.reverse ↔ [c, c] <:+: t := List.reverse_infix
    exact h
  rw [List.append_assoc, hfront _ _ hlead, ← hreverse, List.reverse_append,
    hfront _ _ (by simpa using htrail), hreverse]

end Text

namespace Call

open Text (OnlyAtEnd Denotes)

/-! ## The end of a live value -/

/-- The first braces that close the value are its end. -/
def ClosesAtEnd (value : Text) : Prop :=
  ∃ inner, value = openingBraces ++ inner ++ closingBraces ∧
    OnlyAtEnd closingBraces (inner ++ closingBraces)

/-- Closing braces inside are those of the expression. -/
theorem TrimsTo.infix_closing_iff {inner e : Text} (h : TrimsTo inner e) :
    closingBraces <:+: inner ↔ closingBraces <:+: e := by
  obtain ⟨before, after, rfl, hbefore, hafter⟩ := h.exists_around
  have hplain : ¬(isSign '\x7d' ∨ Text.isBlank '\x7d') := by decide
  exact Text.infix_double_append_iff (fun hc => hplain (hbefore _ hc))
    fun hc => hplain (hafter _ hc)

/-- Other closing braces stand inside, or they share one with the end. -/
theorem onlyAtEnd_closing_iff {inner : Text} :
    OnlyAtEnd closingBraces (inner ++ closingBraces) ↔
      ¬closingBraces <:+: inner ∧ ¬['\x7d'] <:+ inner := by
  constructor
  · intro h
    constructor
    · rintro ⟨before, after, rfl⟩
      have hafter := h before (after ++ closingBraces) (by simp)
      simp at hafter
    · rintro ⟨before, rfl⟩
      have hafter := h before ['\x7d'] (by simp)
      cases hafter
  · rintro ⟨hinside, hlast⟩ before after h
    rcases List.eq_nil_or_concat after with rfl | ⟨after, c, rfl⟩
    · rfl
    have hall : (inner ++ ['\x7d']) ++ ['\x7d'] = (before ++ closingBraces ++ after) ++ [c] := by
      simpa using h
    have hone := (List.append_inj' hall rfl).1
    rcases List.eq_nil_or_concat after with rfl | ⟨after, d, rfl⟩
    · have hshared : inner ++ ['\x7d'] = (before ++ ['\x7d']) ++ ['\x7d'] := by simpa using hone
      exact absurd ⟨before, (List.append_inj' hshared rfl).1.symm⟩ hlast
    · have hother : inner ++ ['\x7d'] = (before ++ closingBraces ++ after) ++ [d] := by
        simpa using hone
      exact absurd ⟨before, after, (List.append_inj' hother rfl).1.symm⟩ hinside

theorem closing_suffix_iff {inner : Text} (hinner : inner ≠ []) :
    ['\x7d', '\x7d', '\x7d'] <:+ openingBraces ++ inner ++ closingBraces ↔ ['\x7d'] <:+ inner := by
  rcases List.eq_nil_or_concat inner with rfl | ⟨init, c, rfl⟩
  · exact absurd rfl hinner
  constructor
  · rintro ⟨before, h⟩
    have hends : (before ++ ['\x7d']) ++ closingBraces =
        (openingBraces ++ init ++ [c]) ++ closingBraces := by simpa using h
    have hlast : ['\x7d'] = [c] := (List.append_inj' (List.append_inj' hends rfl).1 rfl).2
    exact ⟨init, by rw [hlast, List.concat_eq_append]⟩
  · rintro ⟨before, h⟩
    exact ⟨openingBraces ++ before, by rw [← h]; simp⟩

/-- A live value ends at its first closing braces unless a third brace stands before them. -/
theorem Live.closesAtEnd_iff {value e : Text} (h : Live value e) :
    ClosesAtEnd value ↔ ¬['\x7d', '\x7d', '\x7d'] <:+ value := by
  obtain ⟨inner, rfl, htrims⟩ := h.enclosed
  have hinner : inner ≠ [] := by
    rintro rfl
    exact h.nonempty (trimsTo_iff.1 htrims).symm
  have hcloses : ClosesAtEnd (openingBraces ++ inner ++ closingBraces) ↔
      OnlyAtEnd closingBraces (inner ++ closingBraces) := by
    constructor
    · rintro ⟨inner', heq, hend⟩
      obtain rfl : inner = inner' := by simpa using heq
      exact hend
    · exact fun hend => ⟨inner, rfl, hend⟩
  rw [hcloses, onlyAtEnd_closing_iff, closing_suffix_iff hinner, htrims.infix_closing_iff]
  exact and_iff_right h.noClosing

/-- Exactly the values that are one expression between braces are passed live, and any other value
becomes a literal. A live value ends at the first braces that close it if and only if no third brace
stands before those at its end. -/
theorem valueExpression_live_iff (value : Text) :
    (∀ e, valueExpression value = '(' :: e ++ [')'] ↔ Live value e) ∧
      (∀ e, Live value e → (ClosesAtEnd value ↔ ¬['\x7d', '\x7d', '\x7d'] <:+ value)) ∧
      ((∀ e, ¬Live value e) →
        Denotes (valueExpression value) (unescape '\'' (unescape '"' value))) := by
  refine ⟨fun e => valueExpression_eq_parens_iff, fun e h => h.closesAtEnd_iff, fun h => ?_⟩
  have hnot : ¬∃ e, valueExpression value = '(' :: e ++ [')'] := by
    rintro ⟨e, he⟩
    exact h e (valueExpression_eq_parens_iff.1 he)
  rw [valueExpression_eq_quote hnot]
  exact Text.denotes_quote _

/-- Of three braces at the end the first two close the value, and the third one stands behind them.
The value is passed live all the same, as an expression with a brace at its end. -/
theorem not_closesAtEnd_bracedValue :
    valueExpression "\x7b\x7b a \x7d\x7d\x7d".toList = "(a \x7d)".toList ∧
      "\x7b\x7b a \x7d\x7d\x7d".toList =
        openingBraces ++ " a ".toList ++ closingBraces ++ ['\x7d'] ∧
      ¬ClosesAtEnd "\x7b\x7b a \x7d\x7d\x7d".toList := by
  have hvalue : valueExpression "\x7b\x7b a \x7d\x7d\x7d".toList = "(a \x7d)".toList := by decide
  have hlive : Live "\x7b\x7b a \x7d\x7d\x7d".toList "a \x7d".toList :=
    valueExpression_eq_parens_iff.1 hvalue
  refine ⟨hvalue, rfl, ?_⟩
  rw [hlive.closesAtEnd_iff, not_not]
  decide

/-- Signs and white space go, and an output with text in front of it is a literal. -/
theorem valueExpression_live_iff_signedValue :
    Live "\x7b\x7b- x -\x7d\x7d".toList ['x'] ∧
      ClosesAtEnd "\x7b\x7b- x -\x7d\x7d".toList ∧
      (∀ e, ¬Live "a \x7b\x7b b \x7d\x7d".toList e) ∧
      Denotes (valueExpression "a \x7b\x7b b \x7d\x7d".toList)
        "a \x7b\x7b b \x7d\x7d".toList := by
  obtain ⟨hparens, hcloses, -⟩ := valueExpression_live_iff "\x7b\x7b- x -\x7d\x7d".toList
  have hlive := (hparens ['x']).1 (by decide)
  have hend := (hcloses _ hlive).2 (by decide)
  obtain ⟨hparens', -, hdenotes⟩ := valueExpression_live_iff "a \x7b\x7b b \x7d\x7d".toList
  have hliteral : valueExpression "a \x7b\x7b b \x7d\x7d".toList =
      "\"a \x7b\x7b b \x7d\x7d\"".toList := by decide
  have hnot (e : Text) : ¬Live "a \x7b\x7b b \x7d\x7d".toList e := by
    intro he
    have hparen := hliteral.symm.trans ((hparens' e).2 he)
    exact absurd (List.cons.inj hparen).1 (by decide)
  exact ⟨hlive, hend, hnot, hdenotes hnot⟩

end Call
end ComponentTags
