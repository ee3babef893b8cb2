import ComponentTags.Expander.Pass
import ComponentTags.Proofs.Forest.Plain

/-!
# Passes over a forest

The leaf blocks of a text are the blocks of height one of its forest, where they stand. Putting
calls in their places leaves the text of the forest reduced by one.
-/

namespace ComponentTags

namespace Forest

/-- The leaf blocks of a forest that stands in the given place, each with the tag that begins it. -/
def leavesAt : Place → Forest → List (Tag × Block)
  | _, nil => []
  | p, single mark after rest =>
    (mark.tag, .ofSelfClosing (mark.placed p)) :: rest.leavesAt ((p.past mark.text).past after)
  | p, pair start inside body finish after rest =>
    let inner := (p.past start.text).past inside
    let outer := inner.past body.text
    (if body.height = 0 then
        [(start.tag, .enclosing (start.placed p) (finish.placed outer) inside)]
      else body.leavesAt inner) ++
      rest.leavesAt ((outer.past finish.text).past after)

theorem map_fst_leavesAt (f : Forest) (p : Place) :
    (f.leavesAt p).map Prod.fst = (f.blocks.filter (·.1 == 1)).map Prod.snd := by
  induction f generalizing p with
  | nil => rfl
  | single mark after rest ih => simp [leavesAt, blocks, ih]
  | pair start inside body finish after rest ihb ihr =>
    by_cases hb : body.height = 0
    · obtain rfl := eq_nil_of_height hb
      simp [leavesAt, blocks, height, ihr]
    · simp [leavesAt, blocks, hb, ihb, ihr]

theorem name_of_mem_leavesAt {f : Forest} {p : Place} {leaf : Tag × Block}
    (h : leaf ∈ f.leavesAt p) : leaf.2.name = leaf.1.name := by
  induction f generalizing p with
  | nil => cases h
  | single mark after rest ih =>
    rcases List.mem_cons.1 h with rfl | h
    · rfl
    · exact ih h
  | pair start inside body finish after rest ihb ihr =>
    rcases List.mem_append.1 h with h | h
    · split at h
      · rw [List.mem_singleton.1 h]
        rfl
      · exact ihb h
    · exact ihr h

theorem le_start_of_mem_leavesAt {f : Forest} {p : Place} {leaf : Tag × Block}
    (h : leaf ∈ f.leavesAt p) : p.offset ≤ leaf.2.full.start := by
  induction f generalizing p with
  | nil => cases h
  | single mark after rest ih =>
    rcases List.mem_cons.1 h with rfl | h
    · exact Nat.le_refl _
    · have hle := ih h
      simp only [Place.offset_past] at hle
      omega
  | pair start inside body finish after rest ihb ihr =>
    rcases List.mem_append.1 h with h | h
    · split at h
      · rw [List.mem_singleton.1 h]
        exact Nat.le_refl _
      · have hle := ihb h
        simp only [Place.offset_past] at hle
        omega
    · have hle := ihr h
      simp only [Place.offset_past] at hle
      omega

/-! ## The leaf blocks of a text -/

theorem leavesOfTags_placedFrom {source after : Text} {f : Forest} {p : Place} (h : f.Matched)
    (hp : p.Begins (f.text ++ after) source) :
    Block.leavesOfTags source (Mark.placedFrom p f.pieces) = (f.leavesAt p).map Prod.snd := by
  induction f generalizing after p with
  | nil => rfl
  | single mark gap rest ih =>
    simp only [text_single, List.append_assoc] at hp
    have hk : (mark.placed p).kind = .selfClosing := h.1
    rw [pieces, Mark.placedFrom, Block.leavesOfTags_selfClosing _ _ hk, ih h.2 hp.past.past]
    rfl
  | pair start inside body finish gap rest ihb ihr =>
    obtain ⟨hs, hf, -, hb, hr⟩ := h
    simp only [text_pair, List.append_assoc] at hp
    let inner := (p.past start.text).past inside
    have hs' : (start.placed p).kind = .opening := hs
    have hf' : (finish.placed (inner.past body.text)).kind = .closing := hf
    have hrest := ihr hr hp.past.past.past.past.past
    rw [pieces, Mark.placedFrom, Mark.placedFrom_append, Mark.placedFrom]
    by_cases hheight : body.height = 0
    · obtain rfl := eq_nil_of_height hheight
      have hleaf : Block.ofPair source (start.placed p) (finish.placed (inner.past [])) =
          .enclosing (start.placed p) (finish.placed (inner.past [])) inside :=
        congrArg (Block.enclosing (start.placed p) (finish.placed inner)) hp.past.slice
      have hpair := Block.leavesOfTags_pair source
        (Mark.placedFrom ((inner.past finish.text).past gap) rest.pieces) hs' hf'
      rw [text_nil, hleaf] at hpair
      exact hpair.trans (congrArg (_ :: ·) hrest)
    · have hne : Mark.placedFrom inner body.pieces ≠ [] := by
        intro hnil
        cases body with
        | nil => exact hheight rfl
        | single => cases hnil
        | pair => cases hnil
      have henclosing := Block.leavesOfTags_enclosing source
        (Mark.placedFrom (((inner.past body.text).past finish.text).past gap) rest.pieces) hs' hf'
        (balanced_placedFrom hb inner) hne
      rw [leavesAt, if_neg hheight, List.map_append, ← ihb hb hp.past.past, ← hrest]
      exact henclosing

/-- The leaf blocks of a text are those of its forest. -/
theorem leaves_eq {lead : Text} {f : Forest} (h : f.Matched) (hlead : Token.Plain lead)
    (hreadable : Mark.Readable f.pieces) :
    Block.leaves (lead ++ f.text) = .ok ((f.leavesAt (Place.first.past lead)).map Prod.snd) := by
  refine Block.leaves_eq_ok_iff.2 ⟨_, ?_, balanced_placedFrom h (Place.first.past lead), ?_⟩
  · exact Mark.listOfTokens_marked hlead hreadable Place.first
  · have hbegins : (Place.first.past lead).Begins (f.text ++ []) (lead ++ f.text) := by
      simpa using (Place.begins_first (lead ++ f.text)).past
    exact (leavesOfTags_placedFrom h hbegins).symm

end Forest

/-- A text without tags has no leaf blocks. -/
theorem Block.leaves_of_next?_none {source : Text}
    (h : Tag.next? (Token.list source) = .ok none) : Block.leaves source = .ok [] :=
  Block.leaves_eq_ok_iff.2 ⟨[], Tag.listOfTokens_none h, .nil, rfl⟩

/-! ## Splicing -/

theorem Text.takeBytes_append_of_le {s : Text} {n : Nat} (h : byteSize s ≤ n) (t : Text) :
    takeBytes n (s ++ t) = s ++ takeBytes (n - byteSize s) t := by
  induction s generalizing n with
  | nil => rfl
  | cons c s ih =>
    have hpos := c.utf8Size_pos
    rw [byteSize_cons] at h
    rw [List.cons_append, takeBytes, if_neg (by omega), ih (by omega), byteSize_cons,
      Nat.sub_sub, List.cons_append]

/-- All items begin in the place or behind it. -/
def Text.StartFrom (p : Place) (items : List (Span × Text)) : Prop :=
  ∀ item ∈ items, p.offset ≤ item.1.start

theorem Text.StartFrom.of_past {p : Place} {s : Text} {items : List (Span × Text)}
    (h : StartFrom (p.past s) items) : StartFrom p items :=
  fun item hm => Nat.le_trans (Nat.le_add_right ..) (h item hm)

/-- Text before all replacements is kept. -/
theorem Text.splice_keep {source s t : Text} {p : Place} (hp : p.Begins (s ++ t) source)
    {items : List (Span × Text)} (h : StartFrom (p.past s) items) :
    splice source p.offset items = s ++ splice source (p.past s).offset items := by
  cases items with
  | nil => rw [splice, splice, hp.dropBytes, hp.past.dropBytes]
  | cons item items =>
    obtain ⟨span, replacement⟩ := item
    have hstart : p.offset + byteSize s ≤ span.start := (List.forall_mem_cons.1 h).1
    have hslice : slice p.offset span.start source =
        s ++ slice (p.past s).offset span.start source := by
      rw [slice, slice, hp.dropBytes, hp.past.dropBytes, takeBytes_append_of_le (by omega),
        Nat.sub_sub]
      rfl
    rw [splice, splice, hslice, List.append_assoc, List.append_assoc, List.append_assoc]

theorem Text.splice_replace (source replacement : Text) (start stop : Nat)
    (items : List (Span × Text)) :
    splice source start ((⟨start, stop⟩, replacement) :: items) =
      replacement ++ splice source stop items := by
  simp [splice, slice]

namespace Forest

/-- Calls for leaf blocks, numbered by the tags that begin them. -/
def callsOf (number : Tag → Nat) (leaves : List (Tag × Block)) : List (Span × Text) :=
  leaves.map fun leaf => (leaf.2.full, Call.ofBlock (number leaf.1) leaf.2)

theorem startFrom_callsOf (number : Tag → Nat) (f : Forest) {p : Place} {items : List (Span × Text)}
    (h : Text.StartFrom p items) : Text.StartFrom p (callsOf number (f.leavesAt p) ++ items) := by
  intro item hm
  rcases List.mem_append.1 hm with hm | hm
  · obtain ⟨leaf, hleaf, rfl⟩ := List.mem_map.1 hm
    exact le_start_of_mem_leavesAt hleaf
  · exact h item hm

/-- Putting calls in the places of the leaf blocks gives the text of the reduced forest. -/
theorem splice_leavesAt {source after : Text} (number : Tag → Nat) {f : Forest} {p : Place}
    {items : List (Span × Text)} (hp : p.Begins (f.text ++ after) source)
    (h : Text.StartFrom (p.past f.text) items) :
    Text.splice source p.offset (callsOf number (f.leavesAt p) ++ items) =
      (f.reduce (fun _ => number) 1).1 ++ ((f.reduce (fun _ => number) 1).2.text ++
        Text.splice source (p.past f.text).offset items) := by
  induction f generalizing after p items with
  | nil => rfl
  | single mark gap rest ih =>
    simp only [text_single, List.append_assoc, Place.past_append] at hp h ⊢
    let next := (p.past mark.text).past gap
    have hlater : Text.StartFrom next (callsOf number (rest.leavesAt next) ++ items) :=
      startFrom_callsOf number rest h.of_past
    rw [reduce_single (Nat.le_refl 1)]
    calc Text.splice source p.offset
          (callsOf number ((single mark gap rest).leavesAt p) ++ items)
        = Call.ofBlock (number mark.tag) (.ofSelfClosing mark.tag) ++
            Text.splice source (p.past mark.text).offset
              (callsOf number (rest.leavesAt next) ++ items) := Text.splice_replace ..
      _ = _ := by
        rw [Text.splice_keep hp.past hlater, ih hp.past.past h]
        simp
  | pair start inside body finish gap rest ihb ihr =>
    simp only [text_pair, List.append_assoc, Place.past_append] at hp h ⊢
    let inner := (p.past start.text).past inside
    let outer := inner.past body.text
    let next := (outer.past finish.text).past gap
    have hlater : Text.StartFrom next (callsOf number (rest.leavesAt next) ++ items) :=
      startFrom_callsOf number rest h.of_past
    by_cases hb : body.height = 0
    · obtain rfl := eq_nil_of_height hb
      rw [reduce_pair (Nat.le_refl 1)]
      calc Text.splice source p.offset
            (callsOf number ((pair start inside nil finish gap rest).leavesAt p) ++ items)
          = Call.ofBlock (number start.tag) (.enclosing start.tag finish.tag inside) ++
              Text.splice source (outer.past finish.text).offset
                (callsOf number (rest.leavesAt next) ++ items) := Text.splice_replace ..
        _ = _ := by
          rw [Text.splice_keep hp.past.past.past.past hlater, ihr hp.past.past.past.past.past h]
          simp [reduce]
    · have houter := hlater.of_past.of_past
      have hinner : Text.StartFrom inner (callsOf number (body.leavesAt inner) ++
          (callsOf number (rest.leavesAt next) ++ items)) :=
        startFrom_callsOf number body houter.of_past
      have hleaves : callsOf number ((pair start inside body finish gap rest).leavesAt p) ++ items =
          callsOf number (body.leavesAt inner) ++
            (callsOf number (rest.leavesAt next) ++ items) := by
        simp [leavesAt, hb, callsOf, next, inner, outer]
      rw [keep_pair (by omega), hleaves, Text.splice_keep hp hinner.of_past,
        Text.splice_keep hp.past hinner, ihb hp.past.past houter,
        Text.splice_keep hp.past.past.past hlater.of_past,
        Text.splice_keep hp.past.past.past.past hlater, ihr hp.past.past.past.past.past h]
      simp

theorem splice_text (lead : Text) (f : Forest) (number : Tag → Nat) :
    Text.splice (lead ++ f.text) 0 (callsOf number (f.leavesAt (Place.first.past lead))) =
      lead ++ ((f.reduce (fun _ => number) 1).1 ++ (f.reduce (fun _ => number) 1).2.text) := by
  have hfirst := Place.begins_first (lead ++ f.text)
  have hbegins : (Place.first.past lead).Begins (f.text ++ []) (lead ++ f.text) := by
    simpa using hfirst.past
  have hnil (p : Place) : Text.StartFrom p [] := fun item hm => nomatch hm
  have hlater := startFrom_callsOf number f (hnil (Place.first.past lead))
  have hsplice := splice_leavesAt number hbegins (hnil _)
  rw [List.append_nil] at hlater hsplice
  calc Text.splice (lead ++ f.text) 0 (callsOf number (f.leavesAt (Place.first.past lead)))
      = lead ++ Text.splice (lead ++ f.text) (Place.first.past lead).offset
          (callsOf number (f.leavesAt (Place.first.past lead))) := Text.splice_keep hfirst hlater
    _ = _ := by rw [hsplice, Text.splice, hbegins.past.dropBytes, List.append_nil]

/-- Calls are numbered one by one where the numbers of the tags are. -/
theorem replacements_eq {number : Tag → Nat} {leaves : List (Tag × Block)} {first : Nat}
    (h : (leaves.map Prod.fst).map number = List.range' first leaves.length) :
    Expander.replacements first (leaves.map Prod.snd) = callsOf number leaves := by
  induction leaves generalizing first with
  | nil => rfl
  | cons leaf leaves ih =>
    simp only [List.map_cons, List.length_cons, List.range'_succ, List.cons.injEq] at h
    obtain ⟨rfl, hrest⟩ := h
    exact congrArg (_ :: ·) (ih hrest)

end Forest

end ComponentTags
