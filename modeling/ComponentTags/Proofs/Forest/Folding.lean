import ComponentTags.Proofs.Forest.Numbering
import ComponentTags.Proofs.Forest.Plain

/-!
# Folding marked text

Marked text is translated from its end on, with a stack of the end tags whose start tags are still
to come. The fold over the marks of a forest is its translation, and marks over which the fold ends
with an empty stack are those of a forest. Translating one part of the marks beforehand, wherever it
stands, leaves the fold over all of them as it is.
-/

namespace ComponentTags

namespace Mark

/-- What marks from some place on are translated to: the text up to the first end tag without its
start tag, and all such end tags, each with the text after it. -/
structure Folded where
  text : Text
  ends : List (Tag × Text)

namespace Folded

/-- Translates the mark before what has been translated. -/
def prepend (number : Tag → Nat) (piece : Mark × Text) (r : Folded) : Option Folded :=
  let tag := piece.1.tag
  let text := piece.2 ++ r.text
  match tag.kind, r.ends with
  | .selfClosing, ends => some ⟨Call.ofBlock (number tag) (.ofSelfClosing tag) ++ text, ends⟩
  | .closing, ends => some ⟨[], (tag, text) :: ends⟩
  | .opening, (finish, after) :: ends =>
    if tag.sameName finish then
      some ⟨Call.ofBlock (number tag) (.enclosing tag finish text) ++ after, ends⟩
    else none
  | .opening, [] => none

/-- What has been translated, after another text. -/
def after (r : Folded) (front : Text) : Folded :=
  ⟨front ++ r.text, r.ends⟩

@[simp] theorem after_nil (r : Folded) : r.after [] = r := rfl

@[simp] theorem after_after (r : Folded) (s t : Text) : (r.after t).after s = r.after (s ++ t) := by
  simp [after]

variable {number : Tag → Nat} {mark : Mark} {r : Folded}

theorem prepend_single (hk : mark.tag.kind = .selfClosing) (gap : Text) (r : Folded) :
    prepend number (mark, gap) r =
      some (r.after (Call.ofBlock (number mark.tag) (.ofSelfClosing mark.tag) ++ gap)) := by
  simp [prepend, after, hk]

theorem prepend_finish (hk : mark.tag.kind = .closing) (gap : Text) (r : Folded) :
    prepend number (mark, gap) r = some ⟨[], (mark.tag, gap ++ r.text) :: r.ends⟩ := by
  simp [prepend, hk]

theorem prepend_start (hk : mark.tag.kind = .opening) (gap text after : Text) {finish : Tag}
    (ends : List (Tag × Text)) (hn : mark.tag.sameName finish) :
    prepend number (mark, gap) ⟨text, (finish, after) :: ends⟩ =
      some ⟨Call.ofBlock (number mark.tag) (.enclosing mark.tag finish (gap ++ text)) ++ after,
        ends⟩ := by
  simp [prepend, hk, hn]

theorem prepend_mismatched (hk : mark.tag.kind = .opening) (gap text after : Text) {finish : Tag}
    (ends : List (Tag × Text)) (hn : mark.tag.sameName finish = false) :
    prepend number (mark, gap) ⟨text, (finish, after) :: ends⟩ = none := by
  simp [prepend, hk, hn]

theorem prepend_missing (hk : mark.tag.kind = .opening) (gap text : Text) :
    prepend number (mark, gap) ⟨text, []⟩ = none := by
  simp [prepend, hk]

/-- The gap after a mark and the text behind the gap are translated as one text. -/
theorem prepend_append (number : Tag → Nat) (mark : Mark) (gap front : Text) (r : Folded) :
    prepend number (mark, gap ++ front) r = prepend number (mark, gap) (r.after front) := by
  simp only [prepend, after, List.append_assoc]

end Folded

def fold (number : Tag → Nat) (pieces : Sequence) : Option Folded :=
  pieces.foldrM (Folded.prepend number) ⟨[], []⟩

variable {number : Tag → Nat}

@[simp] theorem fold_nil : fold number [] = some ⟨[], []⟩ := rfl

@[simp] theorem fold_cons (piece : Mark × Text) (pieces : Sequence) :
    fold number (piece :: pieces) = (fold number pieces).bind (Folded.prepend number piece) := by
  rw [fold, List.foldrM_cons]
  rfl

theorem fold_append_of_none {pieces : Sequence} (h : fold number pieces = none)
    (before : Sequence) : fold number (before ++ pieces) = none := by
  induction before with
  | nil => exact h
  | cons piece before ih => rw [List.cons_append, fold_cons, ih, Option.bind_none]

/-- The tags that begin blocks. -/
def heads (pieces : Sequence) : List Tag :=
  (pieces.map (·.1.tag)).filter (!·.isClosing)

@[simp] theorem heads_append (pieces rest : Sequence) :
    heads (pieces ++ rest) = heads pieces ++ heads rest := by
  simp [heads]

/-- Only the numbers of the tags that begin blocks matter. -/
theorem fold_congr {number' : Tag → Nat} {pieces : Sequence}
    (h : ∀ tag ∈ heads pieces, number tag = number' tag) :
    fold number pieces = fold number' pieces := by
  induction pieces with
  | nil => rfl
  | cons piece pieces ih =>
    obtain ⟨mark, gap⟩ := piece
    have hstep (r : Folded) :
        Folded.prepend number (mark, gap) r = Folded.prepend number' (mark, gap) r := by
      by_cases hk : mark.tag.kind = .closing
      · rw [Folded.prepend_finish hk, Folded.prepend_finish hk]
      · have hmem : mark.tag ∈ heads ((mark, gap) :: pieces) := by
          simp [heads, Tag.isClosing, hk]
        simp only [Folded.prepend, h _ hmem]
    have hrest : ∀ tag ∈ heads pieces, number tag = number' tag := by
      intro tag hm
      refine h tag ?_
      rw [← List.singleton_append, heads_append]
      exact List.mem_append_right _ hm
    rw [fold_cons, fold_cons, ih hrest]
    exact congrArg _ (funext hstep)

/-! ## Marks without some of them -/

/-- Marks in which `front` is left between `before` and `rest`: the text before the first mark and
the marks. -/
def joined (front : Text) (rest : Sequence) : Sequence → Text × Sequence
  | [] => (front, rest)
  | (mark, gap) :: before =>
    let next := joined front rest before
    ([], (mark, gap ++ next.1) :: next.2)

theorem textOf_joined (front : Text) (rest before : Sequence) :
    (joined front rest before).1 ++ textOf (joined front rest before).2 =
      textOf before ++ (front ++ textOf rest) := by
  induction before with
  | nil => rfl
  | cons piece before ih =>
    obtain ⟨mark, gap⟩ := piece
    simp [joined, ih]

theorem map_fst_joined (front : Text) (rest before : Sequence) :
    (joined front rest before).2.map Prod.fst = (before ++ rest).map Prod.fst := by
  induction before with
  | nil => rfl
  | cons piece before ih =>
    obtain ⟨mark, gap⟩ := piece
    simp [joined, ih]

theorem heads_joined (front : Text) (rest before : Sequence) :
    heads (joined front rest before).2 = heads before ++ heads rest := by
  have htags := congrArg (List.map Mark.tag) (map_fst_joined front rest before)
  rw [List.map_map, List.map_map] at htags
  rw [← heads_append, heads, heads]
  exact congrArg (List.filter _) htags

theorem readable_joined {front : Text} {rest before : Sequence} (hfront : Token.Plain front)
    (hhead : front.head?.all Token.isInert) (hrest : Readable rest) (hbefore : Readable before) :
    Token.Plain (joined front rest before).1 ∧
      (joined front rest before).1.head?.all Token.isInert ∧
      Readable (joined front rest before).2 := by
  induction before with
  | nil => exact ⟨hfront, hhead, hrest⟩
  | cons piece before ih =>
    obtain ⟨mark, gap⟩ := piece
    obtain ⟨⟨hmark, hgap⟩, hbefore⟩ := List.forall_mem_cons.1 hbefore
    obtain ⟨hplain, hinert, hreadable⟩ := ih hbefore
    exact ⟨trivial, rfl,
      List.forall_mem_cons.2 ⟨⟨hmark, Token.plain_append hgap hplain hinert⟩, hreadable⟩⟩

/-- Marks that amount to a text may be left out for that text. -/
theorem fold_joined {front : Text} {part rest : Sequence}
    (h : fold number (part ++ rest) = (fold number rest).map (·.after front))
    (before : Sequence) :
    fold number (before ++ (part ++ rest)) =
      (fold number (joined front rest before).2).map (·.after (joined front rest before).1) := by
  induction before with
  | nil => exact h
  | cons piece before ih =>
    obtain ⟨mark, gap⟩ := piece
    rw [List.cons_append, fold_cons, ih]
    simp only [joined, fold_cons]
    cases fold number (joined front rest before).2 with
    | none => rfl
    | some r => simp [Folded.prepend_append]

end Mark

namespace Forest

open Mark (Folded fold)

variable {number : Tag → Nat}

/-- The marks of a forest amount to its translation. -/
theorem fold_append {f : Forest} (h : f.Matched) (rest : Mark.Sequence) :
    fold number (f.pieces ++ rest) =
      (fold number rest).map (·.after (f.translate fun _ => number)) := by
  induction f generalizing rest with
  | nil => cases hrest : fold number rest <;> simp [pieces, translate, hrest]
  | single mark gap tail ih =>
    rw [pieces, List.cons_append, Mark.fold_cons, ih h.2]
    cases fold number rest with
    | none => rfl
    | some r => simp [Folded.prepend_single h.1, translate]
  | pair start inside body finish gap tail ihb ihr =>
    obtain ⟨hs, hf, hn, hb, hr⟩ := h
    rw [pieces, List.cons_append, List.append_assoc, List.cons_append, Mark.fold_cons, ihb hb,
      Mark.fold_cons, ihr hr]
    cases fold number rest with
    | none => rfl
    | some r =>
      simp [Folded.prepend_finish hf, Folded.prepend_start hs _ _ _ _ hn, Folded.after, translate]

theorem fold_pieces {f : Forest} (h : f.Matched) :
    fold number f.pieces = some ⟨f.translate fun _ => number, []⟩ := by
  have happend : fold number (f.pieces ++ []) = _ := fold_append h []
  simpa [Folded.after] using happend

theorem heads_pieces {f : Forest} (h : f.Matched) : Mark.heads f.pieces = f.blocks.map Prod.snd :=
  (map_snd_blocks h).symm

/-- Marks of forests, with the given end tags between them. -/
inductive Unopened : Mark.Sequence → List Tag → Prop where
  | nil {f : Forest} : f.Matched → Unopened f.pieces []
  | cons {f : Forest} {finish : Mark} (gap : Text) {rest : Mark.Sequence} {ends : List Tag} :
      f.Matched → finish.tag.kind = .closing → Unopened rest ends →
      Unopened (f.pieces ++ (finish, gap) :: rest) (finish.tag :: ends)

theorem Unopened.single {pieces : Mark.Sequence} {ends : List Tag} (h : Unopened pieces ends)
    {mark : Mark} (hk : mark.tag.kind = .selfClosing) (gap : Text) :
    Unopened ((mark, gap) :: pieces) ends := by
  cases h with
  | @nil f hf => exact .nil (f := .single mark gap f) ⟨hk, hf⟩
  | @cons f finish gap' rest ends hf hfinish hrest =>
    exact .cons (f := .single mark gap f) gap' ⟨hk, hf⟩ hfinish hrest

theorem Unopened.start {pieces : Mark.Sequence} {finish : Tag} {ends : List Tag}
    (h : Unopened pieces (finish :: ends)) {mark : Mark} (hk : mark.tag.kind = .opening)
    (hn : mark.tag.sameName finish) (gap : Text) : Unopened ((mark, gap) :: pieces) ends := by
  cases h with
  | @cons body finish gap' rest ends hbody hfinish hrest =>
    cases hrest with
    | @nil tail htail =>
      exact .nil (f := .pair mark gap body finish gap' tail) ⟨hk, hfinish, hn, hbody, htail⟩
    | @cons tail finish' gap'' rest ends htail hfinish' hrest =>
      have hpair := Unopened.cons (f := .pair mark gap body finish gap' tail) gap''
        ⟨hk, hfinish, hn, hbody, htail⟩ hfinish' hrest
      simpa [pieces] using hpair

theorem unopened_of_fold {pieces : Mark.Sequence} {r : Folded} (h : fold number pieces = some r) :
    Unopened pieces (r.ends.map Prod.fst) := by
  induction pieces generalizing r with
  | nil =>
    cases h
    exact .nil (f := .nil) trivial
  | cons piece pieces ih =>
    obtain ⟨mark, gap⟩ := piece
    obtain ⟨⟨text, ends⟩, hfold, hstep⟩ :=
      Option.bind_eq_some_iff.1 ((Mark.fold_cons ..).symm.trans h)
    have hpieces := ih hfold
    cases hk : mark.tag.kind with
    | selfClosing =>
      rw [Folded.prepend_single hk] at hstep
      cases hstep
      exact hpieces.single hk gap
    | closing =>
      rw [Folded.prepend_finish hk] at hstep
      cases hstep
      exact .cons (f := .nil) gap trivial hk hpieces
    | opening =>
      cases ends with
      | nil =>
        rw [Folded.prepend_missing hk] at hstep
        cases hstep
      | cons entry ends =>
        obtain ⟨finish, after⟩ := entry
        by_cases hn : mark.tag.sameName finish
        · rw [Folded.prepend_start hk _ _ _ _ hn] at hstep
          cases hstep
          exact hpieces.start hk hn gap
        · rw [Folded.prepend_mismatched hk _ _ _ _ (Bool.not_eq_true _ ▸ hn)] at hstep
          cases hstep

/-- Marks over which the fold leaves no end tag are those of a forest. -/
theorem exists_of_fold {pieces : Mark.Sequence} {text : Text}
    (h : fold number pieces = some ⟨text, []⟩) :
    ∃ f : Forest, f.pieces = pieces ∧ f.Matched ∧ text = f.translate fun _ => number := by
  have hpieces := unopened_of_fold h
  cases hpieces with
  | @nil f hf =>
    rw [fold_pieces hf] at h
    cases h
    exact ⟨f, rfl, hf, rfl⟩

/-- Only the numbers of the blocks matter. -/
theorem translate_congr {f : Forest} {number number' : Nat → Tag → Nat}
    (h : ∀ b ∈ f.blocks, number b.1 b.2 = number' b.1 b.2) :
    f.translate number = f.translate number' := by
  induction f with
  | nil => rfl
  | single mark gap rest ih =>
    obtain ⟨hmark, hrest⟩ := List.forall_mem_cons.1 h
    rw [translate, translate, ih hrest, hmark]
  | pair start inside body finish gap rest ihb ihr =>
    obtain ⟨hstart, hinner⟩ := List.forall_mem_cons.1 h
    obtain ⟨hbody, hrest⟩ := List.forall_mem_append.1 hinner
    rw [translate, translate, ihb hbody, ihr hrest, hstart]

theorem plain_translate (number : Nat → Tag → Nat) {f : Forest} (h : Mark.Readable f.pieces)
    (hvalues : ∀ piece ∈ f.pieces, ∀ a ∈ piece.1.tag.attributes, Token.Plain a.2) :
    Token.Plain (f.translate number) ∧ (f.translate number).head?.all Token.isInert := by
  obtain ⟨hplain, hhead, -⟩ := readable_reduce number f.height h hvalues
  have htext : f.replaceBelow number (f.height + 1) = _ := replaceBelow_eq f
  rw [replaceBelow_eq_translate (Nat.lt_succ_self _), reduce_eq_nil (Nat.le_refl _), text_nil,
    List.append_nil] at htext
  exact htext ▸ ⟨hplain, hhead⟩

end Forest

end ComponentTags
