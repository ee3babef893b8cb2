import Mathlib.Data.List.DropRight
import ComponentTags.Text.Blank

/-!
# The ends of a text

Stripping takes the characters of a class from both ends of a text and leaves a core that neither
begins nor ends with one of them. This determines the core.
-/

namespace ComponentTags.Text

variable {p : Char → Bool} {s core : Text}

theorem prefix_dropEndWhile (p : Char → Bool) (s : Text) : dropEndWhile p s <+: s :=
  List.rdropWhile_prefix p s

theorem dropEndWhile_eq_self (h : ∀ c ∈ s.getLast?, ¬p c) : dropEndWhile p s = s := by
  refine List.rdropWhile_eq_self_iff.2 fun hne => ?_
  exact h _ (List.getLast?_eq_some_getLast hne)

theorem dropWhile_eq_self (h : ∀ c ∈ s.head?, ¬p c) : s.dropWhile p = s := by
  cases s with
  | nil => rfl
  | cons c s => exact List.dropWhile_cons_of_neg (h c rfl)

/-- What a text is stripped to: the core stands between characters of the class, and there is none
of them at its own ends. -/
structure StripsTo (p : Char → Bool) (s core : Text) : Prop where
  between : ∃ lead trail, s = lead ++ core ++ trail ∧ (∀ c ∈ lead, p c) ∧ ∀ c ∈ trail, p c
  head : ∀ c ∈ core.head?, ¬p c
  last : ∀ c ∈ core.getLast?, ¬p c

theorem stripsTo_stripWhile (p : Char → Bool) (s : Text) : StripsTo p s (stripWhile p s) where
  between := by
    have hinner : stripWhile p s ++ (s.dropWhile p).rtakeWhile p = s.dropWhile p :=
      List.rdropWhile_append_rtakeWhile
    refine ⟨s.takeWhile p, (s.dropWhile p).rtakeWhile p, ?_, ?_, ?_⟩
    · rw [List.append_assoc, hinner, List.takeWhile_append_dropWhile]
    · exact fun c hc => List.mem_takeWhile_imp hc
    · exact fun c hc => List.mem_rtakeWhile_imp hc
  head := by
    intro c hc
    have hmem : c ∈ (s.dropWhile p).head? := by
      obtain ⟨rest, hrest⟩ := List.head?_eq_some_iff.1 hc
      obtain ⟨dropped, hdropped⟩ := prefix_dropEndWhile p (s.dropWhile p)
      rw [← hdropped]
      change c ∈ (stripWhile p s ++ dropped).head?
      rw [hrest]
      rfl
    have hnot := List.head?_dropWhile_not p s
    rw [Option.mem_def.1 hmem] at hnot
    simpa using hnot
  last := by
    intro c hc
    have hne : stripWhile p s ≠ [] := by
      intro hnil
      rw [hnil] at hc
      cases hc
    rw [List.getLast?_eq_some_getLast hne, Option.mem_some_iff] at hc
    exact hc ▸ List.rdropWhile_last_not p (s.dropWhile p) hne

theorem StripsTo.stripWhile_eq (h : StripsTo p s core) : stripWhile p s = core := by
  obtain ⟨lead, trail, rfl, hlead, htrail⟩ := h.between
  rw [stripWhile, List.append_assoc, List.dropWhile_append_of_pos hlead]
  by_cases hne : core = []
  · subst hne
    rw [List.nil_append, ← List.append_nil trail, List.dropWhile_append_of_pos htrail]
    rfl
  · have hfront : (core ++ trail).dropWhile p = core ++ trail := by
      refine dropWhile_eq_self ?_
      rw [List.head?_append_of_ne_nil _ hne]
      exact h.head
    rw [hfront, dropEndWhile, List.reverse_append, List.dropWhile_append_of_pos]
    · exact dropEndWhile_eq_self h.last
    · exact fun c hc => htrail c (List.mem_reverse.1 hc)

theorem stripsTo_iff : StripsTo p s core ↔ stripWhile p s = core :=
  ⟨StripsTo.stripWhile_eq, fun h => h ▸ stripsTo_stripWhile p s⟩

theorem stripWhile_eq_self_iff :
    stripWhile p s = s ↔ (∀ c ∈ s.head?, ¬p c) ∧ ∀ c ∈ s.getLast?, ¬p c := by
  constructor
  · intro h
    have hs := stripsTo_iff.2 h
    exact ⟨hs.head, hs.last⟩
  · rintro ⟨hhead, hlast⟩
    rw [stripWhile, dropWhile_eq_self hhead, dropEndWhile_eq_self hlast]

theorem stripWhile_stripWhile (p : Char → Bool) (s : Text) :
    stripWhile p (stripWhile p s) = stripWhile p s :=
  stripWhile_eq_self_iff.2 ⟨(stripsTo_stripWhile p s).head, (stripsTo_stripWhile p s).last⟩

/-- An ending that is not stripped itself is not touched when the text is. -/
theorem suffix_stripWhile {ending : Text} (h : ending <:+ s)
    (hstrip : stripWhile p ending = ending) : ending <:+ stripWhile p s := by
  obtain ⟨hfirst, hlast⟩ := stripWhile_eq_self_iff.1 hstrip
  obtain ⟨before, rfl⟩ := h
  have hfront : ending <:+ (before ++ ending).dropWhile p := by
    rw [List.dropWhile_append]
    split
    · exact (dropWhile_eq_self hfirst).symm ▸ List.suffix_refl ending
    · exact List.suffix_append ..
  obtain ⟨kept, hkept⟩ := hfront
  rw [stripWhile, ← hkept]
  by_cases hne : ending = []
  · rw [hne]
    exact List.nil_suffix
  · rw [dropEndWhile_eq_self]
    · exact List.suffix_append ..
    · rwa [List.getLast?_append_of_ne_nil _ hne]

theorem filter_dropWhile_not {α : Type} (p : α → Bool) (l : List α) :
    (l.dropWhile (!p ·)).filter p = l.filter p := by
  induction l with
  | nil => rfl
  | cons a l ih =>
    by_cases h : p a
    · rw [List.dropWhile_cons_of_neg (by simp [h])]
    · rw [List.dropWhile_cons_of_pos (by simp [h]), ih, List.filter_cons_of_neg h]

theorem filter_stripWhile (p : Char → Bool) (s : Text) :
    (stripWhile p s).filter (!p ·) = s.filter (!p ·) := by
  have hfront (l : Text) : (l.dropWhile p).filter (!p ·) = l.filter (!p ·) := by
    simpa using filter_dropWhile_not (!p ·) l
  rw [stripWhile, dropEndWhile, List.filter_reverse, hfront, List.filter_reverse,
    List.reverse_reverse, hfront]

/-- A text that keeps its blanks when it is trimmed has none at its ends. -/
theorem trim_eq_self_of_countP (h : s.countP isBlank ≤ (trim s).countP isBlank) : trim s = s := by
  refine (stripWhile_sublist isBlank s).eq_of_length_le ?_
  have hrest : (trim s).countP (!isBlank ·) = s.countP (!isBlank ·) := by
    rw [List.countP_eq_length_filter, List.countP_eq_length_filter, trim, filter_stripWhile]
  have hlength (l : Text) : l.length = l.countP isBlank + l.countP (!isBlank ·) := by
    simpa using List.length_eq_countP_add_countP isBlank (l := l)
  have hs := hlength s
  have htrim := hlength (trim s)
  change s.length ≤ (trim s).length
  omega

end ComponentTags.Text
