import ComponentTags.Call
import ComponentTags.Tag.Placement

/-!
# Angle brackets of a call

A call holds no more `<` than the attribute values and the body that it is made of: names hold none,
and quoting and unescaping add none.
-/

namespace ComponentTags

theorem Token.toNat_lt_of_isNameChar {c : Char} (h : Token.isNameChar c) : c.toNat < 0x80 := by
  have upper (h : c.isUpper) : c.toNat < 0x80 := by
    have h : 'A'.val ≤ c.val ∧ c.val ≤ 'Z'.val := of_decide_eq_true h
    exact Nat.lt_of_le_of_lt h.2 (by decide)
  have lower (h : c.isLower) : c.toNat < 0x80 := by
    have h : ('a'.val ≤ c.val && c.val ≤ 'z'.val) = true := h
    exact Nat.lt_of_le_of_lt (of_decide_eq_true (Bool.and_eq_true_iff.1 h).2) (by decide)
  have alpha (h : c.isAlpha) : c.isUpper ∨ c.isLower := Bool.or_eq_true .. ▸ h
  simp only [Token.isNameChar, Char.isAlphanum, Bool.or_eq_true, decide_eq_true_eq] at h
  rcases h with (h | h) | rfl
  · exact (alpha h).elim upper lower
  · exact Nat.lt_of_le_of_lt (Char.isDigit_iff_toNat.1 h).2 (by decide)
  · decide

theorem Token.notMem_lower {name : Text} (h : ∀ c ∈ name, Token.isNameChar c) :
    '<' ∉ Text.lower name := by
  rw [Text.lower_of_ascii fun c hc => Token.toNat_lt_of_isNameChar (h c hc)]
  simp only [Text.asciiLower, List.mem_map, not_exists, not_and]
  intro c hc he
  have lower : ∀ n < 0x80, (Char.ofNat n).toLower = '<' → Char.ofNat n = '<' := by decide
  have := lower c.toNat (Token.toNat_lt_of_isNameChar (h c hc)) (by simpa using he)
  rw [Char.ofNat_toNat] at this
  exact absurd (this ▸ h c hc) (by decide)

namespace Text

theorem count_quote (s : Text) : (quote s).count '<' = s.count '<' := by
  have escape_eq (c : Char) : (escape c).count '<' = if c = '<' then 1 else 0 := by
    have digits : ∀ n < 32, hexDigit (n / 16) ≠ '<' ∧ hexDigit (n % 16) ≠ '<' := by decide
    unfold escape
    repeat' split
    all_goals simp_all
  have : (s.flatMap escape).count '<' = s.count '<' := by
    induction s with
    | nil => rfl
    | cons c s ih => simp [ih, escape_eq, List.count_cons, Nat.add_comm]
  simp [quote, this]

theorem count_ofNat (n : Nat) {c : Char} (hc : c.isDigit = false) : (ofNat n).count c = 0 :=
  List.count_eq_zero.2 fun h =>
    absurd (Nat.isDigit_of_mem_toDigits (by decide) (by decide) h) (by simp [hc])

end Text

namespace Call

theorem singleExpression?_sublist {value e : Text} (h : singleExpression? value = some e) :
    e.Sublist value := by
  have dropSign_sublist (s : Text) : (dropSign s).Sublist s := by
    unfold dropSign
    split <;> simp
  simp only [singleExpression?, Option.bind_eq_bind, Option.bind_eq_some_iff] at h
  obtain ⟨inner, ho, inner', hc, h⟩ := h
  split at h <;> simp at h
  subst h
  refine (Text.stripWhile_sublist ..).trans <| .trans ?_ <|
    (Text.sublist_of_beforeEnding? hc).trans (Text.sublist_of_afterBeginning? ho)
  simpa using ((dropSign_sublist _).trans (dropSign_sublist inner').reverse).reverse

theorem unescape_sublist (quote : Char) (s : Text) : (unescape quote s).Sublist s := by
  fun_induction unescape quote s with
  | case1 => exact .refl _
  | case2 => exact .refl _
  | case3 c d s h ih => obtain ⟨rfl, rfl⟩ := h; exact .cons _ (.cons_cons _ ih)
  | case4 c d s h ih => exact .cons_cons _ ih

/-- An expression holds no more of a character than its value if a literal holds no more of it than
its text. -/
theorem count_valueExpression_le_of {c : Char} (hc : c ∉ "()".toList)
    (h : ∀ s, (Text.quote s).count c ≤ s.count c) (value : Text) :
    (valueExpression value).count c ≤ value.count c := by
  unfold valueExpression
  split
  · next e he =>
    have hnone : '(' ≠ c ∧ ')' ≠ c := by simpa [eq_comm] using hc
    simpa [hnone] using (singleExpression?_sublist he).count_le c
  · exact Nat.le_trans (h _) (((unescape_sublist ..).trans (unescape_sublist ..)).count_le c)

theorem count_valueExpression_le (value : Text) :
    (valueExpression value).count '<' ≤ value.count '<' :=
  count_valueExpression_le_of (by decide) (fun s => Nat.le_of_eq (Text.count_quote s)) value

theorem count_join {separator : Text} {c : Char} (hs : separator.count c = 0)
    (pieces : List Text) : (Text.join separator pieces).count c = pieces.flatten.count c := by
  induction pieces with
  | nil => simp [Text.join]
  | cons piece rest ih =>
    cases rest with
    | nil => simp [Text.join]
    | cons _ _ =>
      simp only [Text.join, List.flatten_cons, List.count_append, hs] at ih ⊢
      omega

/-- A map literal holds no more of a character than its values if its entries do not. -/
theorem count_attributeMap_le_of {attributes : Attributes} {c : Char}
    (hc : c ∉ "\x7b, \x7d".toList)
    (h : ∀ a ∈ attributes, (attributeMap.entry a).count c ≤ a.2.count c) :
    (attributeMap attributes).count c ≤ (attributes.flatMap Prod.snd).count c := by
  have entries_le : (attributes.map attributeMap.entry).flatten.count c ≤
      (attributes.flatMap Prod.snd).count c := by
    induction attributes with
    | nil => simp
    | cons a rest ih =>
      obtain ⟨ha, hrest⟩ := List.forall_mem_cons.1 h
      have := ih hrest
      simp only [List.map_cons, List.flatten_cons, List.flatMap_cons, List.count_append]
      omega
  have hnone : '\x7b' ≠ c ∧ ',' ≠ c ∧ ' ' ≠ c ∧ '\x7d' ≠ c := by
    simpa [eq_comm] using hc
  have join_eq := count_join (show [',', ' '].count c = 0 by simp [hnone])
    (attributes.map attributeMap.entry)
  simpa [attributeMap, join_eq, hnone] using entries_le

theorem count_attributeMap_le {attributes : Attributes}
    (h : ∀ a ∈ attributes, ∀ c ∈ a.1, Token.isNameChar c) :
    (attributeMap attributes).count '<' ≤ attributes.angles := by
  refine count_attributeMap_le_of (by decide) fun a ha => ?_
  have : a.1.count '<' = 0 :=
    List.count_eq_zero.2 fun hm => absurd (h a ha _ hm) (by decide)
  simp [attributeMap.entry, Text.count_quote, this, count_valueExpression_le]

theorem count_bodyVariable (number : Nat) : (bodyVariable number).count '<' = 0 := by
  simp [bodyVariable, Delimited.reserved, Text.count_ofNat]

theorem count_opening_le (number : Nat) {block : Block}
    (hn : ∀ c ∈ block.name, Token.isNameChar c)
    (ha : ∀ a ∈ block.attributes, ∀ c ∈ a.1, Token.isNameChar c) :
    (opening number block).count '<' ≤ block.attributes.angles := by
  simp [opening, functionName, identifier, Text.count_quote, Text.count_ofNat,
    List.count_eq_zero.2 (Token.notMem_lower hn), count_attributeMap_le ha]

/-- The call of a block holds no more `<` than the values and the body of the block. -/
theorem count_ofBlock_le (number : Nat) (block : Block)
    (hn : ∀ c ∈ block.name, Token.isNameChar c)
    (ha : ∀ a ∈ block.attributes, ∀ c ∈ a.1, Token.isNameChar c) :
    (ofBlock number block).count '<' ≤ block.attributes.angles + block.body.count '<' := by
  have count_capture : (capture number block.body).count '<' = block.body.count '<' := by
    simp [capture, Delimited.statement, count_bodyVariable]
  have count_output (expression : Text) :
      (Delimited.output expression).count '<' = expression.count '<' := by
    simp [Delimited.output]
  have := count_opening_le number hn ha
  unfold ofBlock
  split
  · simp [count_output]
    omega
  · simp [count_capture, count_output, count_bodyVariable]
    omega

end Call

end ComponentTags
