import ComponentTags.Proofs.Tag.Reading

/-!
# Plain text

Text in which no `<` opens a tag: none stands before a name, the `/` of an end tag or white space.
The search for a tag passes over it, and the gaps between the tags of a source are plain.
-/

namespace ComponentTags

namespace Token

/-! ## Plain text -/

/-- Whether a `<` before this text may open a tag. -/
def opensTag (rest : Text) : Bool :=
  opensName rest || opensEnd rest || rest.head?.any isSpace

/-- No `<` of the text opens a tag. -/
def Plain : Text → Prop
  | [] => True
  | c :: rest => (c = '<' → opensTag rest = false) ∧ Plain rest

theorem plain_append_of_notMem {s : Text} (hs : '<' ∉ s) (t : Text) :
    Plain (s ++ t) ↔ Plain t := by
  induction s with
  | nil => rfl
  | cons c s ih =>
    simp only [List.mem_cons, not_or] at hs
    simp [Plain, Ne.symm hs.1, ih hs.2]

theorem opensTag_of_append {s t : Text} (h : opensTag (s ++ t) = false) : opensTag s = false := by
  rcases s with _ | ⟨c, s⟩
  · rfl
  · simp only [opensTag, Bool.or_eq_false_iff] at h ⊢
    refine ⟨⟨h.1.1, ?_⟩, h.2⟩
    by_cases hc : c = '/'
    · subst hc
      cases s with
      | nil => rfl
      | cons => exact h.1.2
    · simp [opensEnd, hc]

theorem opensTag_append_cons {d : Char} (hd : isInert d) {s : Text} (h : opensTag s = false)
    (t : Text) : opensTag (s ++ d :: t) = false := by
  cases s with
  | nil =>
    simp [opensTag, not_opensName_of_isInert hd, not_opensEnd_of_isInert hd,
      not_isSpace_of_isInert hd]
  | cons c s =>
    have hend := opensEnd_append hd (List.cons_ne_nil c s) t
    simp only [opensTag, hend, Bool.or_eq_false_iff] at h ⊢
    exact h

theorem plain_append_cons {d : Char} (hd : isInert d) {s t : Text} (hs : Plain s)
    (ht : Plain (d :: t)) : Plain (s ++ d :: t) := by
  induction s with
  | nil => exact ht
  | cons c s ih =>
    refine ⟨fun hc => ?_, ih hs.2⟩
    exact opensTag_append_cons hd (hs.1 hc) t

theorem plain_of_suffix {s t : Text} (h : Plain t) (hs : s <:+ t) : Plain s := by
  obtain ⟨u, rfl⟩ := hs
  induction u with
  | nil => exact h
  | cons c u ih => exact ih h.2

/-! ## Plain text and tokens -/

theorem eq_angle_of_mem_text {start line : Nat} {c : Char} {rest : Text}
    (h : '<' ∈ (first start line c rest).text) : c = '<' := by
  refine Decidable.byContradiction fun hc => ?_
  have run (p : Char → Bool) (hp : p '<' = false) :
      '<' ∉ rest.take (rest.takeWhile p).length := by
    intro hm
    rw [← List.prefix_iff_eq_take.1 (List.takeWhile_prefix p)] at hm
    have := List.all_eq_true.1 List.all_takeWhile _ hm
    simp [hp] at this
  have head (d : Char) (hd : d ≠ '<') (hr : rest.head? = some d) : '<' ∉ rest.take 1 := by
    cases rest with
    | nil => simp
    | cons e rest => simp at hr; simp [hr, hd.symm]
  simp only [first, List.mem_cons, Ne.symm hc, false_or] at h
  by_cases hs : isSpace c
  · exact run isSpace rfl (by simpa [Kind.lex, hs] using h)
  by_cases hn : isNameChar c
  · exact run isNameChar rfl (by simpa [Kind.lex, hs, hn] using h)
  by_cases hl : c = '/'
  · rw [hl, lex_slash] at h
    split at h
    · next hr => exact head '>' (by decide) hr h
    · simp at h
  by_cases hb : c = '\\'
  · rw [hb, lex_backslash] at h
    split at h
    · next hr => exact head '\'' (by decide) hr h
    · split at h
      · next hr => exact head '"' (by decide) hr h
      · simp at h
  · have hzero := length_lex_le c []
    rw [lex_single (by simpa using hs) (by simpa using hn) hc hl hb,
      Nat.le_zero.1 hzero] at h
    simp at h

/-- Tokens without a mark directly before a name stand for plain text if no `<` among them is set
off by white space. -/
theorem plain_textOf {gap after : List Token} {start line : Nat} {s : Text}
    (h : listFrom start line s = gap ++ after)
    (hgap : ∀ t ∈ gap, t.kind ≠ .tagStart ∧ t.kind ≠ .closingTagStart)
    (hspaced : ∀ before c rest, s = before ++ '<' :: c :: rest → isSpace c →
      Text.byteSize (textOf gap) ≤ Text.byteSize before) : Plain (textOf gap) := by
  induction gap generalizing start line s with
  | nil => trivial
  | cons t gap ih =>
    obtain ⟨c, rest, rfl, rfl, hrest⟩ := exists_of_listFrom_eq_cons h
    obtain ⟨hkind, hgap⟩ := List.forall_mem_cons.1 hgap
    have htext := text_first_append start line c rest
    have hplain : Plain (textOf gap) := by
      refine ih hrest.symm hgap ?_
      intro before d after hs hd
      have := hspaced ((first start line c rest).text ++ before) d after (by simp [← htext, hs]) hd
      simp only [textOf_cons, Text.byteSize_append] at this
      omega
    obtain ⟨after', hafter, -⟩ := listFrom_eq_append hrest.symm
    by_cases hc : c = '<'
    · subst hc
      have hlex : Kind.lex '<' rest = (.leftAngle, 0) ∧ opensName rest = false ∧
          opensEnd rest = false := by
        have hk : (Kind.lex '<' rest).1 ≠ .tagStart ∧ (Kind.lex '<' rest).1 ≠ .closingTagStart :=
          hkind
        rw [lex_angle] at hk ⊢
        cases ho : opensName rest <;> cases he : opensEnd rest <;> simp_all
      have hfirst : (first start line '<' rest).text = ['<'] := by simp [first, hlex.1]
      have hrest' : rest = textOf gap ++ after' := by
        rw [← hafter]
        simp [afterFirst, hlex.1]
      have hopens : opensTag rest = false := by
        simp only [opensTag, hlex.2.1, hlex.2.2, Bool.or_self, Bool.false_or]
        cases rest with
        | nil => rfl
        | cons d rest =>
          cases hd : isSpace d with
          | false => simp [hd]
          | true =>
            have := hspaced [] d rest rfl hd
            simp [hfirst, Char.utf8Size] at this
      rw [textOf_cons, hfirst]
      exact ⟨fun _ => opensTag_of_append (hrest' ▸ hopens), hplain⟩
    · rw [textOf_cons, plain_append_of_notMem (fun hm => hc (eq_angle_of_mem_text hm))]
      exact hplain

theorem isWhitespace_first (start line : Nat) (c : Char) (rest : Text) :
    (first start line c rest).isWhitespace = isSpace c := by
  by_cases hs : isSpace c
  · simp [first, isWhitespace, Kind.lex, hs]
  · have : (Kind.lex c rest).1 ≠ .whitespace := by
      unfold Kind.lex
      rw [if_neg hs]
      split
      · simp
      · split <;> (try split) <;> simp
    simp [first, isWhitespace, this, hs]

theorem lex_of_plain {rest : Text} (h : opensTag rest = false) :
    Kind.lex '<' rest = (.leftAngle, 0) := by
  simp only [opensTag, Bool.or_eq_false_iff] at h
  rw [lex_angle, h.1.1, h.1.2]
  rfl

theorem kind_first_of_plain {c : Char} {rest : Text} (h : Plain (c :: rest)) (start line : Nat) :
    (first start line c rest).kind ≠ .tagStart ∧
      (first start line c rest).kind ≠ .closingTagStart := by
  by_cases hc : c = '<'
  · subst hc
    simp [first, lex_of_plain (h.1 rfl)]
  · constructor <;> intro hk <;> exact hc (eq_of_lex_opens (Prod.ext hk rfl) (by simp))

end Token

namespace Tag

open Token

theorem next?_skip {t : Token} {rest : List Token}
    (hk : t.kind ≠ .tagStart ∧ t.kind ≠ .closingTagStart)
    (hs : t.kind = .leftAngle → readSpaced? t rest = none) : next? (t :: rest) = next? rest := by
  rw [next?]
  split
  · next h => exact absurd h hk.1
  · next h => exact absurd h hk.2
  · next h => rw [hs h]
  · rfl

theorem readSpaced?_listFrom {s : Text} (hs : s.head?.all (!isSpace ·)) (mark : Token)
    (start line : Nat) : readSpaced? mark (listFrom start line s) = none := by
  cases s with
  | nil => simp [listFrom, readSpaced?]
  | cons c rest =>
    have hspace : (first start line c rest).isWhitespace = false := by
      rw [isWhitespace_first]
      simpa using hs
    rw [listFrom]
    cases listFrom _ _ (afterFirst c rest) with
    | nil => rfl
    | cons name rest => simp [readSpaced?, hspace]

theorem next?_listFrom_plain {gap : Text} (hgap : Plain gap) {t : Text}
    (ht : t.head?.all isInert) (start line : Nat) :
    next? (listFrom start line (gap ++ t)) =
      next? (listFrom (start + Text.byteSize gap) (line + Text.lineBreaks gap) t) := by
  have hcut : Cut gap t := by
    cases t with
    | nil => exact cut_nil gap
    | cons d t => exact cut_cons (by simpa using ht) gap t
  fun_induction listFrom start line gap with
  | case1 => simp
  | case2 start line c rest token ih =>
    have hrest := plain_of_suffix hgap (afterFirst_suffix c rest)
    rw [listFrom_cons_append (hcut c rest (List.suffix_refl _)), ← stop_first_add start line c rest,
      ← newlines_first_add start line c rest, ← ih hrest (cut_afterFirst hcut)]
    refine next?_skip (kind_first_of_plain hgap start line) ?_
    intro hk
    obtain rfl : c = '<' := eq_of_lex_opens (Prod.ext hk rfl) (by simp)
    have hopens := hgap.1 rfl
    have hafter : afterFirst '<' rest = rest := by simp [afterFirst, lex_of_plain hopens]
    refine readSpaced?_listFrom ?_ _ _ _
    rw [hafter]
    cases rest with
    | nil =>
      cases t with
      | nil => rfl
      | cons d t => simpa using not_isSpace_of_isInert (by simpa using ht)
    | cons d rest => simpa [opensTag] using (Bool.or_eq_false_iff.1 hopens).2

/-- The search for a tag passes over plain text. -/
theorem next?_plain {gap : Text} (hgap : Plain gap) {t : Text} (ht : t.head?.all isInert)
    (p : Place) : next? (listAt p (gap ++ t)) = next? (listAt (p.past gap) t) :=
  next?_listFrom_plain hgap ht p.offset p.line

end Tag

end ComponentTags
