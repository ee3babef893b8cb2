import ComponentTags.Proofs.Call.Value
import ComponentTags.Proofs.Forest.Reduction

/-!
# Plain calls

The call of a block is plain text if its body and its values are, also where other plain text
follows. So a forest that is reduced stays marked text: its tags are read as before, and no
call brings up a tag or hides one.
-/

namespace ComponentTags

open Token (Plain)

namespace Token

theorem plain_append {s t : Text} (hs : Plain s) (ht : Plain t) (hhead : t.head?.all isInert) :
    Plain (s ++ t) := by
  cases t with
  | nil => rwa [List.append_nil]
  | cons d t => exact plain_append_cons hhead hs ht

end Token

namespace Call

/-- A call begins with a brace, which continues no token. -/
theorem head?_ofBlock_append (number : Nat) (block : Block) (s : Text) :
    (ofBlock number block ++ s).head?.all Token.isInert := by
  unfold ofBlock
  split <;> rfl

theorem notMem_statement {words : Text} (h : '<' ∉ words) : '<' ∉ Delimited.statement words := by
  simp [Delimited.statement, h]

theorem notMem_quote {s : Text} (h : '<' ∉ s) : '<' ∉ Text.quote s := by
  rw [← List.count_eq_zero, Text.count_quote]
  exact List.count_eq_zero.2 h

theorem notMem_of_nameChars {s : Text} (h : ∀ c ∈ s, Token.isNameChar c) : '<' ∉ s :=
  fun hm => absurd (h _ hm) (by decide)

theorem plain_join {pieces : List Text} (h : ∀ piece ∈ pieces, Plain piece) :
    Plain (Text.join ", ".toList pieces) := by
  induction pieces with
  | nil => trivial
  | cons piece rest ih =>
    obtain ⟨hpiece, hrest⟩ := List.forall_mem_cons.1 h
    cases rest with
    | nil => exact hpiece
    | cons next rest =>
      rw [Text.join, List.append_assoc]
      · exact Token.plain_append hpiece
          ((Token.plain_append_of_notMem (by decide) _).2 (ih hrest)) rfl
      · simp

theorem plain_attributeMap {attributes : Attributes}
    (hkeys : ∀ a ∈ attributes, ∀ c ∈ a.1, Token.isNameChar c)
    (hvalues : ∀ a ∈ attributes, Plain a.2) : Plain (attributeMap attributes) := by
  have hentries : ∀ piece ∈ attributes.map attributeMap.entry, Plain piece := by
    intro piece hm
    obtain ⟨a, ha, rfl⟩ := List.mem_map.1 hm
    have hkey : '<' ∉ Text.quote a.1 ++ ": ".toList := by
      simp [notMem_quote (notMem_of_nameChars (hkeys a ha))]
    exact (Token.plain_append_of_notMem hkey _).2 (plain_valueExpression (hvalues a ha))
  exact (Token.plain_append_of_notMem (s := ['\x7b']) (by decide) _).2
    (Token.plain_append (plain_join hentries) ⟨by decide, trivial⟩ rfl)

theorem plain_opening_append (number : Nat) {block : Block} {s : Text}
    (hname : ∀ c ∈ block.name, Token.isNameChar c)
    (hkeys : ∀ a ∈ block.attributes, ∀ c ∈ a.1, Token.isNameChar c)
    (hvalues : ∀ a ∈ block.attributes, Plain a.2) (hs : Plain s) :
    Plain (opening number block ++ s) := by
  have hbefore : '<' ∉ functionName ++ '(' :: Text.quote (Text.lower block.name) ++
      ", ".toList := by
    simp [functionName, notMem_quote (Token.notMem_lower hname)]
  have hafter : '<' ∉ ", id=".toList ++ Text.quote (identifier block.name number) := by
    rw [← List.count_eq_zero]
    simp [identifier, Text.count_quote, Text.count_ofNat,
      List.count_eq_zero.2 (Token.notMem_lower hname)]
  rw [opening, List.append_assoc, List.append_assoc, List.append_assoc,
    Token.plain_append_of_notMem hbefore, ← List.append_assoc (", id=".toList)]
  exact Token.plain_append (plain_attributeMap hkeys hvalues)
    ((Token.plain_append_of_notMem hafter s).2 hs) rfl

theorem plain_ofBlock_append (number : Nat) {block : Block} {s : Text}
    (hname : ∀ c ∈ block.name, Token.isNameChar c)
    (hkeys : ∀ a ∈ block.attributes, ∀ c ∈ a.1, Token.isNameChar c)
    (hvalues : ∀ a ∈ block.attributes, Plain a.2) (hbody : Plain block.body) (hs : Plain s) :
    Plain (ofBlock number block ++ s) := by
  have hvariable : '<' ∉ bodyVariable number := List.count_eq_zero.1 (count_bodyVariable number)
  -- the arguments that are not values hold no `<`
  have plain_call {arguments : Text} (h : '<' ∉ arguments) :
      Plain (Delimited.output (opening number block ++ arguments) ++ s) := by
    rw [Delimited.output, List.append_assoc, List.append_assoc, List.append_assoc,
      Token.plain_append_of_notMem (by decide)]
    refine plain_opening_append number hname hkeys hvalues ?_
    rw [Token.plain_append_of_notMem h, Token.plain_append_of_notMem (by decide)]
    exact hs
  unfold ofBlock
  split
  · exact plain_call (by decide)
  · have hset : '<' ∉ Delimited.statement ("set ".toList ++ bodyVariable number) :=
      notMem_statement (by simp [hvariable])
    rw [capture, List.append_assoc, List.append_assoc, List.append_assoc,
      Token.plain_append_of_notMem hset]
    refine Token.plain_append hbody ?_ rfl
    rw [Token.plain_append_of_notMem (notMem_statement (by decide)), List.append_assoc,
      List.append_assoc]
    exact plain_call (by simp [hvariable])

end Call

namespace Forest

/-- A forest stays readable when it is reduced, and the text that comes in front of it is plain. -/
theorem readable_reduce (number : Nat → Tag → Nat) (k : Nat) {f : Forest}
    (h : Mark.Readable f.pieces)
    (hvalues : ∀ piece ∈ f.pieces, ∀ a ∈ piece.1.tag.attributes, Plain a.2) :
    Plain (f.reduce number k).1 ∧ (f.reduce number k).1.head?.all Token.isInert ∧
      Mark.Readable (f.reduce number k).2.pieces := by
  induction f with
  | nil => exact ⟨trivial, rfl, h⟩
  | single mark after rest ih =>
    obtain ⟨⟨hmark, hafter⟩, hrest⟩ := List.forall_mem_cons.1 h
    obtain ⟨hvalue, hvalues⟩ := List.forall_mem_cons.1 hvalues
    obtain ⟨hplain, hhead, hreadable⟩ := ih hrest hvalues
    have hafter := Token.plain_append hafter hplain hhead
    rcases Nat.lt_or_ge k 1 with hk | hk
    · rw [keep_single hk]
      exact ⟨trivial, rfl, List.forall_mem_cons.2 ⟨⟨hmark, hafter⟩, hreadable⟩⟩
    · rw [reduce_single hk]
      refine ⟨?_, Call.head?_ofBlock_append .., hreadable⟩
      exact Call.plain_ofBlock_append _ hmark.kept.name_chars hmark.kept.key_chars hvalue trivial
        hafter
  | pair start inside body finish after rest ihb ihr =>
    obtain ⟨⟨hstart, hinside⟩, hinner⟩ := List.forall_mem_cons.1 h
    obtain ⟨hbody, houter⟩ := List.forall_mem_append.1 hinner
    obtain ⟨⟨hfinish, hafter⟩, hrest⟩ := List.forall_mem_cons.1 houter
    obtain ⟨hvalue, hinner⟩ := List.forall_mem_cons.1 hvalues
    obtain ⟨hbodyValues, houter⟩ := List.forall_mem_append.1 hinner
    obtain ⟨-, hrestValues⟩ := List.forall_mem_cons.1 houter
    obtain ⟨hplainb, hheadb, hreadableb⟩ := ihb hbody hbodyValues
    obtain ⟨hplainr, hheadr, hreadabler⟩ := ihr hrest hrestValues
    have hinside := Token.plain_append hinside hplainb hheadb
    have hafter := Token.plain_append hafter hplainr hheadr
    rcases Nat.lt_or_ge k (body.height + 1) with hk | hk
    · rw [keep_pair hk]
      refine ⟨trivial, rfl, List.forall_mem_cons.2 ⟨⟨hstart, hinside⟩, ?_⟩⟩
      refine List.forall_mem_append.2 ⟨hreadableb, ?_⟩
      exact List.forall_mem_cons.2 ⟨⟨hfinish, hafter⟩, hreadabler⟩
    · rw [reduce_pair hk]
      refine ⟨?_, Call.head?_ofBlock_append .., hreadabler⟩
      exact Call.plain_ofBlock_append _ hstart.kept.name_chars hstart.kept.key_chars hvalue
        hinside hafter

end Forest

end ComponentTags
