import ComponentTags.Call.Angles
import ComponentTags.Proofs.Tag.Plain
import ComponentTags.Proofs.Call.Single

/-!
# Values in calls

A value becomes an expression of a call, and that expression is read again when a pass follows. A
`<` of the value stands there before the same name as before: unescaping and quoting only touch
backslashes, quotes and control characters, and an expression only loses its braces, signs and white
space at both ends. So the expression opens a tag exactly if the value does.
-/

namespace ComponentTags

namespace Token

/-! ## Text after a `<` -/

/-- No `<` of the text stands before a text of the given class. -/
def Lacks (p : Text → Bool) : Text → Prop
  | [] => True
  | c :: rest => (c = '<' → p rest = false) ∧ Lacks p rest

/-- Whether a `<` before this text stands before the name of a tag, with the `/` of an end tag or
without. -/
def opensNamed (rest : Text) : Bool :=
  opensName rest || opensEnd rest

/-- Whether a `<` before this text stands before white space. -/
def opensSpaced (rest : Text) : Bool :=
  rest.head?.any isSpace

theorem plain_iff_lacks {s : Text} : Plain s ↔ Lacks opensTag s := by
  induction s with
  | nil => rfl
  | cons c s ih => simp only [Plain, Lacks, ih]

variable {p q : Text → Bool}

theorem lacks_or {s : Text} : Lacks (fun r => p r || q r) s ↔ Lacks p s ∧ Lacks q s := by
  induction s with
  | nil => exact (and_self_iff).symm
  | cons c s ih =>
    simp only [Lacks, ih, Bool.or_eq_false_iff]
    grind

theorem plain_iff {s : Text} : Plain s ↔ Lacks opensNamed s ∧ Lacks opensSpaced s :=
  plain_iff_lacks.trans lacks_or

/-- What follows a `<`, wherever it stands. -/
theorem lacks_iff {s : Text} :
    Lacks p s ↔ ∀ before rest, s = before ++ '<' :: rest → p rest = false := by
  induction s with
  | nil => simp [Lacks]
  | cons c s ih =>
    rw [Lacks, ih]
    constructor
    · rintro ⟨hc, hs⟩ before rest h
      cases before with
      | nil =>
        obtain ⟨rfl, rfl⟩ := List.cons.inj h
        exact hc rfl
      | cons d before => exact hs before rest (List.cons.inj h).2
    · intro h
      refine ⟨fun hc => h [] s (by rw [hc]; rfl), fun before rest hs => ?_⟩
      exact h (c :: before) rest (by rw [hs]; rfl)

theorem lacks_append_of_notMem {s : Text} (hs : '<' ∉ s) (t : Text) :
    Lacks p (s ++ t) ↔ Lacks p t := by
  induction s with
  | nil => rfl
  | cons c s ih =>
    simp only [List.mem_cons, not_or] at hs
    simp [Lacks, Ne.symm hs.1, ih hs.2]

theorem lacks_of_notMem {s : Text} (hs : '<' ∉ s) : Lacks p s := by
  rw [← List.append_nil s]
  exact (lacks_append_of_notMem hs []).2 trivial

theorem Lacks.of_suffix {s t : Text} (h : Lacks p t) (hs : s <:+ t) : Lacks p s := by
  obtain ⟨u, rfl⟩ := hs
  induction u with
  | nil => exact h
  | cons c u ih => exact ih h.2

/-- Of a class that looks no further than what is there, a first part lacks what the whole does. -/
theorem Lacks.of_append {s t : Text} (hp : ∀ r, p (r ++ t) = false → p r = false)
    (h : Lacks p (s ++ t)) : Lacks p s := by
  induction s with
  | nil => trivial
  | cons c s ih => exact ⟨fun hc => hp s (h.1 hc), ih h.2⟩

theorem Lacks.append {s t : Text} (hp : ∀ r, p r = false → p (r ++ t) = false)
    (hs : Lacks p s) (ht : Lacks p t) : Lacks p (s ++ t) := by
  induction s with
  | nil => exact ht
  | cons c s ih => exact ⟨fun hc => hp s (hs.1 hc), ih hs.2⟩

theorem opensEnd_of_ne {c : Char} (hc : c ≠ '/') (s : Text) : opensEnd (c :: s) = false := by
  simp [opensEnd, hc]

theorem not_opensNamed_of_append {s t : Text} (h : opensNamed (s ++ t) = false) :
    opensNamed s = false := by
  simp only [opensNamed, Bool.or_eq_false_iff] at h ⊢
  cases s with
  | nil => exact ⟨rfl, rfl⟩
  | cons c s =>
    refine ⟨h.1, ?_⟩
    by_cases hc : c = '/'
    · subst hc
      cases s with
      | nil => rfl
      | cons => exact h.2
    · exact opensEnd_of_ne hc s

theorem not_opensSpaced_of_append {s t : Text} (h : opensSpaced (s ++ t) = false) :
    opensSpaced s = false := by
  cases s with
  | nil => rfl
  | cons c s => exact h

/-- Text that begins with no letter of a name does not complete what stands before it. -/
theorem not_opensNamed_append {t : Text} (ht : opensName t = false) (hend : opensEnd t = false)
    {s : Text} (h : opensNamed s = false) : opensNamed (s ++ t) = false := by
  simp only [opensNamed, Bool.or_eq_false_iff] at h ⊢
  cases s with
  | nil => exact ⟨ht, hend⟩
  | cons c s =>
    refine ⟨h.1, ?_⟩
    by_cases hc : c = '/'
    · subst hc
      cases s with
      | nil => exact ht
      | cons => exact h.2
    · exact opensEnd_of_ne hc (s ++ t)

theorem Lacks.of_part {s t : Text} (hp : ∀ r u, p (r ++ u) = false → p r = false)
    (h : Lacks p t) (hs : s <:+: t) : Lacks p s := by
  obtain ⟨before, after, rfl⟩ := hs
  rw [List.append_assoc] at h
  exact (h.of_suffix (List.suffix_append ..)).of_append fun r => hp r after

/-- A part of a text names no tag if the whole does not. -/
theorem Lacks.named_of_part {s t : Text} (h : Lacks opensNamed t) (hs : s <:+: t) :
    Lacks opensNamed s :=
  h.of_part (fun _ _ => not_opensNamed_of_append) hs

end Token

open Token (Lacks Plain opensName opensEnd opensTag opensNamed isSpace)

/-! ## Quoted text -/

namespace Text

/-- A character of a literal is written as it is or after a backslash. -/
theorem escape_cases (c : Char) : escape c = [c] ∨
    (c.isUpper = false ∧ c ≠ '/' ∧ c ≠ '<') ∧ ∃ s, escape c = '\\' :: s := by
  by_cases hwritten : escape c = [c]
  · exact .inl hwritten
  · refine .inr ⟨?_, ?_⟩
    · refine ⟨Bool.eq_false_iff.2 fun hupper => hwritten ?_, ?_, ?_⟩
      · have hle : 'A'.val ≤ c.val ∧ c.val ≤ 'Z'.val := of_decide_eq_true hupper
        have hpos : 65 ≤ c.toNat := hle.1
        have hne {d : Char} (hd : d.toNat < 65 ∨ d = '\\') : c ≠ d := by
          rintro rfl
          rcases hd with hd | rfl
          · omega
          · exact absurd hupper (by decide)
        simp only [escape, hne (d := '"') (by decide), hne (d := '\\') (by decide),
          hne (d := '\n') (by decide), hne (d := '\r') (by decide), hne (d := '\t') (by decide),
          if_false]
        rw [if_neg (by omega), if_neg (by omega), if_neg (by omega)]
      · rintro rfl
        exact hwritten rfl
      · rintro rfl
        exact hwritten rfl
    · revert hwritten
      unfold escape
      repeat' split
      all_goals simp

/-- What stands after a `<` of a text stands after it in the literal. -/
theorem opensName_escape (s t : Text) :
    opensName (s.flatMap escape ++ '"' :: t) = opensName s := by
  cases s with
  | nil => rfl
  | cons c s =>
    rcases escape_cases c with h | ⟨⟨hupper, -⟩, r, h⟩
    · rw [List.flatMap_cons, h]
      rfl
    · rw [List.flatMap_cons, h]
      exact hupper.symm

theorem opensEnd_escape (s t : Text) : opensEnd (s.flatMap escape ++ '"' :: t) = opensEnd s := by
  cases s with
  | nil => rfl
  | cons c s =>
    rcases escape_cases c with h | ⟨⟨-, hslash, -⟩, r, h⟩
    · rw [List.flatMap_cons, h]
      by_cases hc : c = '/'
      · subst hc
        exact opensName_escape s t
      · exact (Token.opensEnd_of_ne hc _).trans (Token.opensEnd_of_ne hc s).symm
    · rw [List.flatMap_cons, h, Token.opensEnd_of_ne hslash]
      rfl

theorem opensNamed_escape (s t : Text) :
    opensNamed (s.flatMap escape ++ '"' :: t) = opensNamed s := by
  rw [opensNamed, opensNamed, opensName_escape, opensEnd_escape]

theorem not_opensTag_escape {s : Text} (h : opensTag s = false) (t : Text) :
    opensTag (s.flatMap escape ++ '"' :: t) = false := by
  simp only [opensTag, opensName_escape, opensEnd_escape, Bool.or_eq_false_iff] at h ⊢
  refine ⟨h.1, ?_⟩
  cases s with
  | nil => rfl
  | cons c s =>
    rcases escape_cases c with hc | ⟨-, r, hc⟩
    · rw [List.flatMap_cons, hc]
      exact h.2
    · rw [List.flatMap_cons, hc]
      rfl

theorem lacks_escape_append {p : Text → Bool} (c : Char) (s : Text) :
    Lacks p (escape c ++ s) ↔ (c = '<' → p s = false) ∧ Lacks p s := by
  by_cases hc : c = '<'
  · subst hc
    rfl
  · have hnotMem : '<' ∉ escape c := by
      have hcount := count_quote [c]
      simp only [quote, List.flatMap_cons, List.flatMap_nil, List.append_nil, List.count_append,
        List.cons_append, List.count_cons, List.count_nil] at hcount
      rw [← List.count_eq_zero]
      simpa [hc] using hcount
    simp [Token.lacks_append_of_notMem hnotMem, hc]

theorem quote_eq (s : Text) : quote s = ['"'] ++ (s.flatMap escape ++ ['"']) := rfl

theorem lacks_quote {s : Text} (h : Lacks opensTag s) : Lacks opensTag (quote s) := by
  rw [quote_eq, Token.lacks_append_of_notMem (by decide)]
  induction s with
  | nil => exact Token.lacks_of_notMem (by decide)
  | cons c s ih =>
    rw [List.flatMap_cons, List.append_assoc, lacks_escape_append]
    exact ⟨fun hc => not_opensTag_escape (h.1 hc) [], ih h.2⟩

theorem lacks_of_quote {s : Text} (h : Lacks opensNamed (quote s)) : Lacks opensNamed s := by
  rw [quote_eq, Token.lacks_append_of_notMem (by decide)] at h
  induction s with
  | nil => trivial
  | cons c s ih =>
    rw [List.flatMap_cons, List.append_assoc, lacks_escape_append] at h
    exact ⟨fun hc => opensNamed_escape s [] ▸ h.1 hc, ih h.2⟩

end Text

/-! ## Values -/

namespace Call

section Unescape

variable {quote : Char}

theorem opensName_unescape (hq : quote.isUpper = false) (s : Text) :
    opensName (unescape quote s) = opensName s := by
  unfold unescape
  split
  · rfl
  · rfl
  · split
    · next h =>
      rw [h.1]
      exact hq
    · rfl

theorem opensEnd_unescape (hq : quote.isUpper = false) (hslash : quote ≠ '/') (s : Text) :
    opensEnd (unescape quote s) = opensEnd s := by
  unfold unescape
  split
  · rfl
  · rfl
  · next c d s =>
    split
    · next h =>
      rw [h.1, Token.opensEnd_of_ne hslash]
      rfl
    · by_cases hc : c = '/'
      · subst hc
        exact opensName_unescape hq (d :: s)
      · rw [Token.opensEnd_of_ne hc, Token.opensEnd_of_ne hc]

theorem lacks_unescape {p : Text → Bool} (hp : ∀ s, p (unescape quote s) = p s)
    (hq : quote ≠ '<') (s : Text) : Lacks p (unescape quote s) ↔ Lacks p s := by
  fun_induction unescape quote s with
  | case1 => rfl
  | case2 => rfl
  | case3 c d s h ih =>
    obtain ⟨rfl, rfl⟩ := h
    simp [Lacks, hq, ih]
  | case4 c d s h ih =>
    rw [Lacks, hp, ih]
    rfl

end Unescape

theorem opensNamed_unescape {quote : Char} (hq : quote.isUpper = false) (hslash : quote ≠ '/')
    (s : Text) : opensNamed (unescape quote s) = opensNamed s := by
  rw [opensNamed, opensNamed, opensName_unescape hq, opensEnd_unescape hq hslash]

theorem opensTag_unescape {quote : Char} (hq : quote.isUpper = false) (hslash : quote ≠ '/')
    (hspace : isSpace quote = false) (s : Text) : opensTag (unescape quote s) = opensTag s := by
  rw [opensTag, opensTag, opensName_unescape hq, opensEnd_unescape hq hslash]
  congr 1
  unfold unescape
  split
  · rfl
  · rfl
  · split
    · next h =>
      rw [h.1]
      exact hspace
    · rfl

/-! ## Single expressions -/

/-- The characters that an expression loses at its ends. -/
def isEdge (c : Char) : Bool :=
  Text.isBlank c || c = '-' || c = '+' || c = '\x7b' || c = '\x7d'

theorem ne_of_isEdge {c : Char} (h : isEdge c) : c ≠ '<' ∧ c ≠ '/' ∧ c.isUpper = false := by
  refine ⟨?_, ?_, Bool.eq_false_iff.2 fun hupper => ?_⟩
  · rintro rfl
    exact absurd h (by decide)
  · rintro rfl
    exact absurd h (by decide)
  · have hle : 'A'.val ≤ c.val ∧ c.val ≤ 'Z'.val := of_decide_eq_true hupper
    have hpos : 65 ≤ c.toNat := hle.1
    have hmax : c.toNat ≤ 90 := hle.2
    have hne {d : Char} (hd : d.toNat < 65 ∨ 90 < d.toNat) : c ≠ d := by
      rintro rfl
      omega
    simp only [isEdge, Text.isBlank, hne (d := '-') (by decide), hne (d := '+') (by decide),
      hne (d := '\x7b') (by decide), hne (d := '\x7d') (by decide)] at h
    simp at h
    omega

/-- The text is the other one with edge characters around it. -/
def InEdges (inner outer : Text) : Prop :=
  ∃ before after, outer = before ++ (inner ++ after) ∧ (∀ c ∈ before, isEdge c) ∧
    ∀ c ∈ after, isEdge c

theorem inEdges_of_singleExpression? {value e : Text} (h : singleExpression? value = some e) :
    InEdges e value := by
  obtain ⟨inner, rfl, htrims⟩ := (singleExpression?_eq_some_iff.1 h).enclosed
  obtain ⟨before, after, rfl, hbefore, hafter⟩ := htrims.exists_around
  have hedge (c : Char) (hc : isSign c ∨ Text.isBlank c) : isEdge c := by
    rcases hc with hc | hc
    · simp only [isSign, Bool.or_eq_true, decide_eq_true_eq] at hc
      rcases hc with rfl | rfl <;> rfl
    · simp [isEdge, hc]
  have hopening : ∀ c ∈ openingBraces, isEdge c := by simp [isEdge]
  have hclosing : ∀ c ∈ closingBraces, isEdge c := by simp [isEdge]
  refine ⟨openingBraces ++ before, after ++ closingBraces, by simp, fun c hc => ?_, fun c hc => ?_⟩
  · exact (List.mem_append.1 hc).elim (hopening c) fun hc => hedge c (hbefore c hc)
  · exact (List.mem_append.1 hc).elim (fun hc => hedge c (hafter c hc)) (hclosing c)

/-! ## Values -/

/-- The expression of a plain value is plain. -/
theorem plain_valueExpression {value : Text} (h : Plain value) :
    Plain (valueExpression value) := by
  unfold valueExpression
  split
  · next e he =>
    obtain ⟨before, after, rfl, -, -⟩ := inEdges_of_singleExpression? he
    have hsuffix := Token.plain_of_suffix h (List.suffix_append before (e ++ after))
    rw [Token.plain_iff_lacks] at hsuffix
    have he := Token.plain_iff_lacks.2 (hsuffix.of_append fun _ => Token.opensTag_of_append)
    exact (Token.plain_append_of_notMem (s := ['(']) (by decide) _).2
      (Token.plain_append_cons (d := ')') (by decide) he ⟨by decide, trivial⟩)
  · rw [Token.plain_iff_lacks] at h ⊢
    refine Text.lacks_quote ?_
    rwa [lacks_unescape (opensTag_unescape (by decide) (by decide) (by decide)) (by decide),
      lacks_unescape (opensTag_unescape (by decide) (by decide) (by decide)) (by decide)]

/-- A value names no tag if its expression does not. -/
theorem lacks_of_valueExpression {value : Text} (h : Lacks opensNamed (valueExpression value)) :
    Lacks opensNamed value := by
  unfold valueExpression at h
  split at h
  · next e he =>
    obtain ⟨before, after, rfl, hb, ha⟩ := inEdges_of_singleExpression? he
    have notMem {s : Text} (hs : ∀ c ∈ s, isEdge c) : '<' ∉ s :=
      fun hm => (ne_of_isEdge (hs _ hm)).1 rfl
    have hname : opensName after = false ∧ opensEnd after = false := by
      cases after with
      | nil => exact ⟨rfl, rfl⟩
      | cons c after =>
        have hc := ne_of_isEdge (ha c (by simp))
        exact ⟨hc.2.2, Token.opensEnd_of_ne hc.2.1 after⟩
    rw [Token.lacks_append_of_notMem (notMem hb)]
    refine Lacks.append (fun _ => Token.not_opensNamed_append hname.1 hname.2) ?_
      (Token.lacks_of_notMem (notMem ha))
    exact h.named_of_part ⟨['('], [')'], rfl⟩
  · have h := Text.lacks_of_quote h
    rwa [lacks_unescape (opensNamed_unescape (by decide) (by decide)) (by decide),
      lacks_unescape (opensNamed_unescape (by decide) (by decide)) (by decide)] at h

end Call

end ComponentTags
