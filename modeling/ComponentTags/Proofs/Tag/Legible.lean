import ComponentTags.Proofs.Tag.Reading

/-!
# Legible attributes

Attributes whose tokens can be told apart. No token of a value is taken for the end of the head or
for the beginning of another attribute, so the search for the end of the head passes over all of
them, and what is read is what is written.
-/

namespace ComponentTags

namespace Tag

/-- Whether the token can end the head of a tag. -/
def Terminates (t : Token) : Prop :=
  t.kind = .rightAngle ∨ t.kind = .selfClosing

/-- Every bracket among the tokens stands before an even number of quotes of the kind. -/
def Sheltered (kind : Token.Kind) (tokens : List Token) : Prop :=
  ∀ t rest, t :: rest <:+ tokens → Terminates t → rest.countP (·.kind == kind) % 2 = 0

/-- Every bracket among the tokens stands after an even number of quotes of the kind. -/
def Enclosed (kind : Token.Kind) (tokens : List Token) : Prop :=
  ∀ before t rest, tokens = before ++ t :: rest → Terminates t →
    before.countP (·.kind == kind) % 2 = 0

/-- Whether a quote comes next, with white space allowed before it. -/
def quoteNext (tokens : List Token) : Bool :=
  (skipSpace tokens).head?.any (·.kind.isQuote)

/-- No quote among the tokens stands after a `=`. -/
def Unassigned (tokens : List Token) : Prop :=
  ∀ t rest, t :: rest <:+ tokens → t.kind = .assign → quoteNext rest = false

/-- The tokens of a value, with its closing quote, that are not taken for anything else. -/
structure Legible (inner : List Token) (finish : Token) : Prop where
  even : inner.countP (·.kind == finish.kind) % 2 = 0
  sheltered : Sheltered finish.kind inner
  unassigned : Unassigned (inner ++ [finish])

/-- The tokens of an attribute after its name, up to the closing quote. -/
inductive LegibleValue : Text → List Token → Prop where
  | mk {before between inner : List Token} {assign opening finish : Token} :
      Blank before → assign.kind = .assign → Blank between → opening.kind.isQuote →
      Legible inner finish → finish.kind = opening.kind →
      LegibleValue (Token.textOf inner)
        (before ++ assign :: (between ++ opening :: (inner ++ [finish])))

/-- The tokens of attributes, given by name, with the white space after each of them. -/
inductive LegibleAttributes : List (Text × Text) → List Token → Prop where
  | nil : LegibleAttributes [] []
  | cons {key : Token} {value : Text} {written after rest : List Token}
      {entries : List (Text × Text)} :
      key.kind = .identifier → LegibleValue value written → Blank after →
      LegibleAttributes entries rest →
      LegibleAttributes ((key.text, value) :: entries) (key :: (written ++ (after ++ rest)))

theorem Unassigned.tail {t : Token} {tokens : List Token} (h : Unassigned (t :: tokens)) :
    Unassigned tokens :=
  fun u rest hs => h u rest (hs.trans (List.suffix_cons t tokens))

/-! ## White space -/

theorem isWhitespace_of_kind {t : Token} {kind : Token.Kind} (h : t.kind = kind)
    (hk : kind ≠ .whitespace) : t.isWhitespace = false := by
  simp [Token.isWhitespace, h, hk]

theorem kind_ne_of_isQuote {t : Token} (h : t.kind.isQuote) {kind : Token.Kind}
    (hk : kind.isQuote = false) : t.kind ≠ kind := by
  rintro rfl
  rw [h] at hk
  cases hk

theorem isWhitespace_of_isQuote {t : Token} (h : t.kind.isQuote) : t.isWhitespace = false :=
  isWhitespace_of_kind rfl (kind_ne_of_isQuote h rfl)

theorem not_terminates_of_isQuote {t : Token} (h : t.kind.isQuote) : ¬ Terminates t :=
  not_or.2 ⟨kind_ne_of_isQuote h rfl, kind_ne_of_isQuote h rfl⟩

/-- The quotes before and after a bracket are even in number together. -/
theorem sheltered_iff_enclosed {kind : Token.Kind} (hq : kind.isQuote) {inner : List Token}
    (heven : inner.countP (·.kind == kind) % 2 = 0) :
    Sheltered kind inner ↔ Enclosed kind inner := by
  have count (before : List Token) {t : Token} {rest : List Token}
      (hinner : inner = before ++ t :: rest) (ht : Terminates t) :
      (before.countP (·.kind == kind) + rest.countP (·.kind == kind)) % 2 = 0 := by
    have hkind : (t.kind == kind) = false :=
      beq_eq_false_iff_ne.2 fun hk => not_terminates_of_isQuote (hk ▸ hq) ht
    rw [hinner, List.countP_append, List.countP_cons, hkind] at heven
    simpa using heven
  constructor
  · intro h before t rest hinner ht
    have hrest := h t rest ⟨before, hinner.symm⟩ ht
    have hcount := count before hinner ht
    omega
  · rintro h t rest ⟨before, hinner⟩ ht
    have hbefore := h before t rest hinner.symm ht
    have hcount := count before hinner.symm ht
    omega

theorem skipSpace_append_cons {t : Token} (ht : t.isWhitespace = false) (tokens rest : List Token) :
    skipSpace (tokens ++ t :: rest) = skipSpace tokens ++ t :: rest := by
  induction tokens with
  | nil => simp [skipSpace, ht]
  | cons s tokens ih =>
    simp only [skipSpace, List.cons_append, List.dropWhile_cons] at ih ⊢
    split
    · exact ih
    · rfl

theorem skipSpace_blank_append {space : List Token} (hs : Blank space) (rest : List Token) :
    skipSpace (space ++ rest) = skipSpace rest :=
  List.dropWhile_append_of_pos hs

theorem skipSpace_cons {t : Token} (ht : t.isWhitespace = false) (rest : List Token) :
    skipSpace (t :: rest) = t :: rest := by
  simp [skipSpace, ht]

theorem quoteNext_of_isQuote {t : Token} (ht : t.kind.isQuote) (rest : List Token) :
    quoteNext (t :: rest) := by
  simp [quoteNext, skipSpace_cons (isWhitespace_of_isQuote ht), ht]

theorem quoteNext_iff {tokens : List Token} : quoteNext tokens ↔ ∃ space quote rest,
    tokens = space ++ quote :: rest ∧ Blank space ∧ quote.kind.isQuote := by
  constructor
  · intro h
    obtain ⟨space, htokens, hspace⟩ := skipSpace_eq_append tokens
    obtain ⟨quote, hhead, hquote⟩ := (Option.any_eq_true ..).1 h
    obtain ⟨rest, hrest⟩ := List.head?_eq_some_iff.1 hhead
    exact ⟨space, quote, rest, hrest ▸ htokens, hspace, hquote⟩
  · rintro ⟨space, quote, rest, rfl, hspace, hquote⟩
    rw [quoteNext, skipSpace_blank_append hspace]
    exact quoteNext_of_isQuote hquote rest

/-! ## The end of the head -/

namespace ValueState

variable {s : ValueState} {t : Token}

/-- Unless it opens a value, a token changes the side only if it is the quote of the value. -/
theorem step_eq (h : t.kind.isQuote → s.afterAssign = false) :
    s.step t =
      ⟨s.quote, s.inside ^^ (t.kind.isQuote && s.quote == some t.kind),
        if t.isWhitespace then s.afterAssign else t.kind == .assign⟩ := by
  cases hq : t.kind.isQuote with
  | false => simp [step, hq]
  | true =>
    simp only [step, hq, h hq]
    cases s.quote == some t.kind <;> simp

theorem step_of_opening (hq : t.kind.isQuote) (hi : s.inside = false) (ha : s.afterAssign) :
    s.step t = ⟨some t.kind, true, false⟩ := by
  have hassign := kind_ne_of_isQuote hq (rfl : Token.Kind.assign.isQuote = false)
  simp [step, hq, hi, ha, isWhitespace_of_isQuote hq, hassign]

end ValueState

theorem not_afterAssign_of_isQuote {s : ValueState} {t : Token} {rest : List Token}
    (ht : t.kind.isQuote) (h : s.afterAssign → quoteNext (t :: rest) = false) :
    s.afterAssign = false := by
  refine Bool.eq_false_iff.2 fun ha => ?_
  simpa [quoteNext_of_isQuote ht] using h ha

theorem extent_of_terminates {s : ValueState} {t : Token} (hs : s.inside = false)
    (ht : Terminates t) (after : List Token) : extent s (t :: after) = .ok ⟨[], t, after⟩ := by
  rcases ht with ht | ht <;> simp [extent, ht, hs]

/-- The search for the end of a head passes over the tokens and goes on in another state. -/
def Passes (s : ValueState) (tokens : List Token) (s' : ValueState) : Prop :=
  ∀ rest e, extent s' rest = .ok e →
    extent s (tokens ++ rest) = .ok { e with body := tokens ++ e.body }

namespace Passes

variable {s s' s'' : ValueState} {t : Token} {tokens tokens' : List Token}

theorem nil (s : ValueState) : Passes s [] s :=
  fun _ _ h => h

theorem append (h : Passes s tokens s') (h' : Passes s' tokens' s'') :
    Passes s (tokens ++ tokens') s'' := by
  intro rest e he
  rw [List.append_assoc, h _ _ (h' _ _ he), List.append_assoc]

theorem single (ht : Terminates t → s.inside) : Passes s [t] (s.step t) := by
  intro rest e he
  have hstop : ((t.kind == .rightAngle || t.kind == .selfClosing) && !s.inside) = false := by
    cases hi : s.inside with
    | true => simp
    | false =>
      have hkind : ¬ Terminates t := fun h => by simp [ht h] at hi
      simpa [Terminates] using hkind
  rw [List.singleton_append, extent, hstop, he]
  rfl

theorem cons (ht : Terminates t → s.inside) (h : Passes (s.step t) tokens s') :
    Passes s (t :: tokens) s' :=
  (single ht).append h

/-- Outside of a value, a token other than a quote or a bracket changes at most whether a `=` was
the latest. -/
theorem cons_outside (hq : t.kind.isQuote = false) (ht : ¬ Terminates t)
    (h : Passes
      { s with afterAssign := if t.isWhitespace then s.afterAssign else t.kind == .assign }
      tokens s') : Passes s (t :: tokens) s' := by
  refine cons (fun h => absurd h ht) ?_
  rw [ValueState.step_eq (fun h => by simp [hq] at h), hq]
  simpa using h

theorem blank (s : ValueState) {space : List Token} (hs : Blank space) : Passes s space s := by
  induction space with
  | nil => exact nil s
  | cons t space ih =>
    obtain ⟨ht, hspace⟩ := List.forall_mem_cons.1 hs
    have hkind : t.kind = .whitespace := by simpa [Token.isWhitespace] using ht
    refine cons_outside (by rw [hkind]; rfl) (by simp [Terminates, hkind]) ?_
    simpa [ht] using ih hspace

theorem key (s : ValueState) (ht : t.kind = .identifier) :
    Passes s [t] { s with afterAssign := false } := by
  have hassign : (Token.Kind.identifier == .assign) = false := rfl
  refine cons_outside (by rw [ht]; rfl) (by simp [Terminates, ht]) ?_
  simpa [Token.isWhitespace, ht, hassign] using nil _

theorem assign (s : ValueState) (ht : t.kind = .assign) :
    Passes s [t] { s with afterAssign := true } := by
  refine cons_outside (by rw [ht]; rfl) (by simp [Terminates, ht]) ?_
  simpa [Token.isWhitespace, ht] using nil _

theorem opening (hq : t.kind.isQuote) (hi : s.inside = false) (ha : s.afterAssign) :
    Passes s [t] ⟨some t.kind, true, false⟩ := by
  rw [← ValueState.step_of_opening hq hi ha]
  exact single fun ht => absurd ht (not_terminates_of_isQuote hq)

/-- In a value, the quotes so far decide whether the search is inside. `n` is their number before
the tokens, without the opening one. -/
theorem within {kind : Token.Kind} (hq : kind.isQuote) {n : Nat} {tail : List Token}
    (hquote : s.quote = some kind) (hinside : s.inside = (n % 2 == 0))
    (henclosed : ∀ before t rest, tokens = before ++ t :: rest → Terminates t →
      (n + before.countP (·.kind == kind)) % 2 = 0)
    (hunassigned : Unassigned (tokens ++ tail))
    (hafter : s.afterAssign → quoteNext (tokens ++ tail) = false) :
    ∃ afterAssign : Bool, (afterAssign → quoteNext tail = false) ∧
      Passes s tokens
        ⟨some kind, (n + tokens.countP (·.kind == kind)) % 2 == 0, afterAssign⟩ := by
  induction tokens generalizing s n with
  | nil =>
    refine ⟨s.afterAssign, hafter, ?_⟩
    rw [List.countP_nil, Nat.add_zero, ← hquote, ← hinside]
    exact .nil s
  | cons t tokens ih =>
    have hmark : (t.kind.isQuote && some kind == some t.kind) = (t.kind == kind) := by
      rw [Bool.eq_iff_iff]
      simp only [Bool.and_eq_true, beq_iff_eq, Option.some.injEq]
      exact ⟨fun h => h.2.symm, fun h => ⟨h ▸ hq, h.symm⟩⟩
    have hstep := ValueState.step_eq fun ht => not_afterAssign_of_isQuote ht hafter
    rw [hquote, hmark, hinside] at hstep
    have hcount (before : List Token) :
        n + (t :: before).countP (·.kind == kind) =
          (n + if t.kind == kind then 1 else 0) + before.countP (·.kind == kind) := by
      rw [List.countP_cons]
      omega
    have hquote' : (s.step t).quote = some kind := by rw [hstep]
    have hinside' : (s.step t).inside = ((n + if t.kind == kind then 1 else 0) % 2 == 0) := by
      rw [hstep]
      cases t.kind == kind
      · simp
      · grind
    have henclosed' (before : List Token) (u : Token) (rest : List Token)
        (htokens : tokens = before ++ u :: rest) (hu : Terminates u) :
        ((n + if t.kind == kind then 1 else 0) + before.countP (·.kind == kind)) % 2 = 0 := by
      rw [← hcount]
      exact henclosed (t :: before) u rest (by rw [htokens]; rfl) hu
    have hafter' (ha : (s.step t).afterAssign) : quoteNext (tokens ++ tail) = false := by
      rw [hstep] at ha
      by_cases hw : t.isWhitespace
      · simpa [quoteNext, skipSpace, hw] using hafter (by simpa [hw] using ha)
      · exact hunassigned t _ (List.suffix_refl _) (by simpa [hw] using ha)
    obtain ⟨a, ha, hpasses⟩ := ih hquote' hinside' henclosed' hunassigned.tail hafter'
    refine ⟨a, ha, .cons (fun ht => ?_) ?_⟩
    · simpa [hinside] using henclosed [] t tokens rfl ht
    · rwa [hcount]

theorem of_enclosed {kind : Token.Kind} (hq : kind.isQuote) {tail : List Token}
    (henclosed : Enclosed kind tokens) (hunassigned : Unassigned (tokens ++ tail)) :
    ∃ afterAssign : Bool, (afterAssign → quoteNext tail = false) ∧
      Passes ⟨some kind, true, false⟩ tokens
        ⟨some kind, tokens.countP (·.kind == kind) % 2 == 0, afterAssign⟩ := by
  have henclosed' (before : List Token) (t : Token) (rest : List Token)
      (htokens : tokens = before ++ t :: rest) (ht : Terminates t) :
      (0 + before.countP (·.kind == kind)) % 2 = 0 := by
    rw [Nat.zero_add]
    exact henclosed before t rest htokens ht
  have hpasses := within hq (s := ⟨some kind, true, false⟩) rfl rfl henclosed' hunassigned
    (fun ha => by cases ha)
  rwa [Nat.zero_add] at hpasses

/-- The quote that delimits the value is passed to the outside. -/
theorem closing {afterAssign : Bool} (hq : t.kind.isQuote) :
    Passes ⟨some t.kind, true, afterAssign⟩ [t] ⟨some t.kind, false, false⟩ := by
  have hassign := kind_ne_of_isQuote hq (rfl : Token.Kind.assign.isQuote = false)
  have hstep : ValueState.step ⟨some t.kind, true, afterAssign⟩ t =
      ⟨some t.kind, false, false⟩ := by
    simp [ValueState.step, hq, isWhitespace_of_isQuote hq, hassign]
  exact hstep ▸ single fun _ => rfl

theorem value {inner : List Token} {finish : Token} (hq : finish.kind.isQuote)
    (h : Legible inner finish) :
    Passes ⟨some finish.kind, true, false⟩ (inner ++ [finish])
      ⟨some finish.kind, false, false⟩ := by
  obtain ⟨afterAssign, -, hpasses⟩ := of_enclosed hq
    ((sheltered_iff_enclosed hq h.even).1 h.sheltered) h.unassigned
  rw [h.even] at hpasses
  exact hpasses.append (closing hq)

end Passes

theorem LegibleValue.passes {value : Text} {written : List Token} (h : LegibleValue value written)
    {s : ValueState} (hs : s.inside = false) : ∃ s', s'.inside = false ∧ Passes s written s' := by
  obtain @⟨before, between, inner, assign, opening, finish, hb, ha, hm, ho, hl, hf⟩ := h
  have hopening : Passes { s with afterAssign := true } [opening]
      ⟨some opening.kind, true, false⟩ := .opening ho hs rfl
  have hvalue : Passes ⟨some opening.kind, true, false⟩ (inner ++ [finish])
      ⟨some finish.kind, false, false⟩ :=
    hf ▸ .value (hf ▸ ho) hl
  refine ⟨⟨some finish.kind, false, false⟩, rfl, (Passes.blank s hb).append ?_⟩
  exact (Passes.assign s ha).append <| (Passes.blank _ hm).append <| hopening.append hvalue

theorem LegibleAttributes.passes {entries : List (Text × Text)} {tokens : List Token}
    (h : LegibleAttributes entries tokens) {s : ValueState} (hs : s.inside = false) :
    ∃ s', s'.inside = false ∧ Passes s tokens s' := by
  induction h generalizing s with
  | nil => exact ⟨s, hs, .nil s⟩
  | cons hk hv ha _ ih =>
    obtain ⟨s', hs', hvalue⟩ := hv.passes (s := { s with afterAssign := false }) hs
    obtain ⟨s'', hs'', hrest⟩ := ih hs'
    exact ⟨s'', hs'', (Passes.key s hk).append (hvalue.append ((Passes.blank s' ha).append hrest))⟩

/-! ## Attributes -/

/-- An attribute comes next, or nothing. -/
def AttributeNext (tokens : List Token) : Prop :=
  tokens = [] ∨ startsAttribute tokens

theorem startsAttribute_of_kind {t : Token} (h : t.kind ≠ .identifier) (rest : List Token) :
    startsAttribute (t :: rest) = false := by
  simp [startsAttribute, h]

theorem startsAttribute_iff {tokens : List Token} :
    startsAttribute tokens ↔ ∃ key space assign rest, tokens = key :: (space ++ assign :: rest) ∧
      key.kind = .identifier ∧ Blank space ∧ assign.kind = .assign ∧ quoteNext rest := by
  constructor
  · intro h
    cases tokens with
    | nil => cases h
    | cons key rest =>
      simp only [startsAttribute, Bool.and_eq_true, beq_iff_eq] at h
      obtain ⟨hkey, h⟩ := h
      obtain ⟨space, hrest, hspace⟩ := skipSpace_eq_append rest
      cases hskip : skipSpace rest with
      | nil => simp [hskip] at h
      | cons assign rest' =>
        simp only [hskip, Bool.and_eq_true, beq_iff_eq] at h
        refine ⟨key, space, assign, rest', by rw [← hskip, ← hrest], hkey, hspace, h.1, ?_⟩
        cases hskip' : skipSpace rest' <;> simp_all [quoteNext]
  · rintro ⟨key, space, assign, rest, rfl, hkey, hspace, hassign, hquote⟩
    have hassignWhite := isWhitespace_of_kind hassign (by decide)
    simp only [startsAttribute, hkey, skipSpace_blank_append hspace, skipSpace_cons hassignWhite,
      hassign]
    cases hskip : skipSpace rest <;> simp_all [quoteNext]

theorem LegibleAttributes.attributeNext {entries : List (Text × Text)} {tokens : List Token}
    (h : LegibleAttributes entries tokens) : AttributeNext tokens := by
  cases h with
  | nil => exact .inl rfl
  | @cons key _ _ after rest _ hk hv =>
    obtain @⟨before, between, inner, assign, opening, finish, hb, ha, hm, ho, -, -⟩ := hv
    have hquote : quoteNext (between ++ opening :: (inner ++ finish :: (after ++ rest))) :=
      quoteNext_iff.2 ⟨between, opening, _, rfl, hm, ho⟩
    exact .inr (startsAttribute_iff.2 ⟨key, before, assign, _, by simp, hk, hb, ha, hquote⟩)

theorem splitAtAttribute_attributeNext {rest : List Token} (h : AttributeNext rest) :
    splitAtAttribute rest = ([], rest) := by
  rcases h with rfl | hstart
  · rfl
  · cases rest with
    | nil => cases hstart
    | cons t rest => simp [splitAtAttribute, hstart]

theorem splitAtAttribute_cons {t : Token} {rest before next : List Token}
    (h : startsAttribute (t :: rest) = false) (hrest : splitAtAttribute rest = (before, next)) :
    splitAtAttribute (t :: rest) = (t :: before, next) := by
  simp [splitAtAttribute, h, hrest]

theorem splitAtAttribute_blank_append {space rest before next : List Token} (hs : Blank space)
    (hrest : splitAtAttribute rest = (before, next)) :
    splitAtAttribute (space ++ rest) = (space ++ before, next) := by
  induction space with
  | nil => exact hrest
  | cons t space ih =>
    obtain ⟨ht, hspace⟩ := List.forall_mem_cons.1 hs
    refine splitAtAttribute_cons (startsAttribute_of_kind (fun hk => ?_) _) (ih hspace)
    simp [Token.isWhitespace, hk] at ht

/-- No attribute begins in a value, nor at its closing quote. -/
theorem Unassigned.startsAttribute_eq_false {t finish : Token} {inner : List Token}
    (h : Unassigned (t :: (inner ++ [finish]))) (hq : finish.kind.isQuote) (rest : List Token) :
    startsAttribute (t :: (inner ++ finish :: rest)) = false := by
  have hfinish := isWhitespace_of_isQuote hq
  simp only [startsAttribute, skipSpace_append_cons hfinish]
  cases hskip : skipSpace inner with
  | nil =>
    simp [kind_ne_of_isQuote hq (rfl : Token.Kind.assign.isQuote = false)]
  | cons assign after =>
    by_cases ha : assign.kind = .assign
    · have hsuffix : assign :: (after ++ [finish]) <:+ t :: (inner ++ [finish]) := by
        have hinner : assign :: after <:+ inner := hskip ▸ List.dropWhile_suffix _
        exact (List.suffix_append_self_iff.2 hinner).trans (List.suffix_cons t _)
      have hnext := h assign _ hsuffix ha
      rw [quoteNext, skipSpace_append_cons hfinish] at hnext
      simp only [List.cons_append, skipSpace_append_cons hfinish]
      cases hafter : skipSpace after with
      | nil => simp [hafter, hq] at hnext
      | cons quote after =>
        have : quote.kind.isQuote = false := by simpa [hafter] using hnext
        simp [this]
    · simp [ha]

theorem splitAtAttribute_value {finish : Token} {inner after rest : List Token}
    (h : Unassigned (inner ++ [finish])) (hq : finish.kind.isQuote) (hafter : Blank after)
    (hrest : AttributeNext rest) :
    splitAtAttribute (inner ++ finish :: (after ++ rest)) = (inner ++ finish :: after, rest) := by
  induction inner with
  | nil =>
    have hkind := kind_ne_of_isQuote hq (rfl : Token.Kind.identifier.isQuote = false)
    have hblank := splitAtAttribute_blank_append hafter (splitAtAttribute_attributeNext hrest)
    rw [List.append_nil] at hblank
    exact splitAtAttribute_cons (startsAttribute_of_kind hkind _) hblank
  | cons t inner ih =>
    exact splitAtAttribute_cons (h.startsAttribute_eq_false hq _) (ih h.tail)

theorem splitAtLast_eq_none {α : Type} {p : α → Bool} {items : List α}
    (h : ∀ a ∈ items, p a = false) : splitAtLast p items = none := by
  induction items with
  | nil => rfl
  | cons a items ih =>
    obtain ⟨ha, hitems⟩ := List.forall_mem_cons.1 h
    simp [splitAtLast, ih hitems, ha]

theorem splitAtLast_append_cons {α : Type} {p : α → Bool} {a : α} (ha : p a) {after : List α}
    (hafter : ∀ b ∈ after, p b = false) (before : List α) :
    splitAtLast p (before ++ a :: after) = some (before, after) := by
  induction before with
  | nil => simp [splitAtLast, splitAtLast_eq_none hafter, ha]
  | cons b before ih => simp [splitAtLast, ih]

theorem readValue_of_legible (tag : Text) {opening finish : Token} {inner after rest : List Token}
    (hq : opening.kind.isQuote) (h : Legible inner finish) (hk : finish.kind = opening.kind)
    (hafter : Blank after) (hrest : AttributeNext rest) :
    readValue tag opening (inner ++ finish :: (after ++ rest)) =
      .ok (Token.textOf inner, rest) := by
  have hsplit := splitAtAttribute_value h.unassigned (hk ▸ hq) hafter hrest
  have hlast : splitAtLast (·.kind == opening.kind) (inner ++ finish :: after) =
      some (inner, after) := by
    refine splitAtLast_append_cons (by simp [hk]) (fun t ht => ?_) inner
    refine beq_eq_false_iff_ne.2 fun h => ?_
    simpa [isWhitespace_of_isQuote (h ▸ hq : t.kind.isQuote)] using hafter t ht
  have heven := h.even
  rw [hk] at heven
  have hstray : after.find? (!·.isWhitespace) = none := by
    simpa [Blank] using hafter
  simp [readValue, hsplit, hlast, heven, hstray, Token.textOf]

theorem LegibleValue.readAttribute {value : Text} {written after rest : List Token}
    (h : LegibleValue value written) {key : Token} (hkey : key.kind = .identifier)
    (hafter : Blank after) (hrest : AttributeNext rest) (tag : Text) :
    readAttribute tag key (written ++ (after ++ rest)) = .ok (value, rest) := by
  obtain ⟨hb, ha, hm, ho, hl, hf⟩ := h
  simp [Tag.readAttribute, hkey, skipSpace_blank_append hb,
    skipSpace_cons (isWhitespace_of_kind ha (by decide)), ha, skipSpace_blank_append hm,
    skipSpace_cons (isWhitespace_of_isQuote ho), ho, readValue_of_legible tag ho hl hf hafter hrest]

theorem LegibleAttributes.readAttributes {entries : List (Text × Text)} {tokens : List Token}
    (h : LegibleAttributes entries tokens) (tag : Text) :
    readAttributes tag tokens = .ok entries := by
  induction h with
  | nil => rw [Tag.readAttributes]
  | cons hk hv ha hrest ih =>
    rw [readAttributes_cons, hv.readAttribute hk ha hrest.attributeNext]
    simp [ih, Except.map]

/-! ## Heads -/

theorem AttributeNext.skipSpace_eq {tokens : List Token} (h : AttributeNext tokens) :
    skipSpace tokens = tokens := by
  rcases h with rfl | hstart
  · rfl
  · cases tokens with
    | nil => rfl
    | cons t rest =>
      have hkind : t.kind = .identifier := by
        simp only [startsAttribute, Bool.and_eq_true, beq_iff_eq] at hstart
        exact hstart.1
      exact skipSpace_cons (isWhitespace_of_kind hkind (by decide)) rest

theorem readOpening_of_legible (mark name : Token) {terminator : Token}
    {between tokens : List Token} {entries : List (Text × Text)} {kind : Kind} (hb : Blank between)
    (h : LegibleAttributes entries tokens)
    (hk : kind = .opening ∧ terminator.kind = .rightAngle ∨
      kind = .selfClosing ∧ terminator.kind = .selfClosing) (after : List Token) :
    readOpening mark (name :: (between ++ (tokens ++ terminator :: after))) =
      .ok ({ name := name.text, kind, attributes := Keyed.ofList entries
             span := ⟨mark.start, terminator.stop⟩, line := mark.line }, after) := by
  obtain ⟨s, hs, hpasses⟩ := h.passes (s := {}) rfl
  have hstop := extent_of_terminates hs (hk.imp And.right And.right) after
  have hextent := ((Passes.blank {} hb).append hpasses) _ _ hstop
  rw [List.append_assoc, List.append_nil] at hextent
  have hskip : skipSpace (between ++ tokens) = tokens := by
    rw [skipSpace_blank_append hb, h.attributeNext.skipSpace_eq]
  have hkind : (if terminator.kind = .selfClosing then Kind.selfClosing else .opening) = kind := by
    rcases hk with ⟨rfl, hk⟩ | ⟨rfl, hk⟩ <;> rw [hk] <;> rfl
  simp [readOpening, hextent, hskip, h.readAttributes, Except.map, hkind]

theorem next?_of_openingMark {mark name : Token} {before rest after : List Token} {tag : Tag}
    (hm : OpeningMark mark before) (hn : name.isTagName)
    (h : readOpening mark (name :: rest) = .ok (tag, after)) :
    next? (mark :: (before ++ name :: rest)) = .ok (some (tag, after)) := by
  cases hm with
  | joined hk => simp [next?, hk, h, Except.map]
  | spaced hk hs => simp [next?, hk, readSpaced?, hs, hn, h, Except.toOption]

end Tag
end ComponentTags
