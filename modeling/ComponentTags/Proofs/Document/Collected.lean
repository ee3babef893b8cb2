import Mathlib
import ComponentTags.Document.Assembly

/-!
# Collected sources

Sources are collected one after the other, each unless its name is there already in some case. So no
two of them agree in the lower case of their names, every name that is offered is there in the end,
and of the sources that agree the first one stays.
-/

namespace ComponentTags.Source

/-- Whether two sources are one template. -/
def agree (s t : Source) : Bool :=
  Text.lower s.name == Text.lower t.name

/-- No two sources are one template. -/
def Distinct (sources : List Source) : Prop :=
  sources.Pairwise fun s t => Text.lower s.name ≠ Text.lower t.name

theorem isAmong_iff {found : List Source} {name : Text} :
    isAmong found name ↔ ∃ s ∈ found, Text.lower s.name = Text.lower name := by
  simp [isAmong]

@[simp] theorem isAmong_append (found added : List Source) (name : Text) :
    isAmong (found ++ added) name = (isAmong found name || isAmong added name) := by
  simp [isAmong]

theorem isAmong_of_mem {found : List Source} {s : Source} (h : s ∈ found) :
    isAmong found s.name :=
  isAmong_iff.2 ⟨s, h, rfl⟩

theorem isAmong_mono {found found' : List Source} (h : found ⊆ found') {name : Text}
    (hn : isAmong found name) : isAmong found' name := by
  obtain ⟨s, hs, hname⟩ := isAmong_iff.1 hn
  exact isAmong_iff.2 ⟨s, h hs, hname⟩

theorem isAmong_congr {name name' : Text} (h : Text.lower name = Text.lower name')
    (found : List Source) : isAmong found name = isAmong found name' := by
  simp only [isAmong, h]

theorem Distinct.concat {found : List Source} {s : Source} (h : Distinct found)
    (hs : ¬isAmong found s.name) : Distinct (found ++ [s]) := by
  refine List.pairwise_append.2 ⟨h, List.pairwise_singleton _ _, ?_⟩
  intro t ht u hu heq
  rw [List.mem_singleton.1 hu] at heq
  exact hs (isAmong_iff.2 ⟨t, ht, heq⟩)

/-! ## Collecting -/

theorem collect_append (found first second : List Source) :
    collect found (first ++ second) = collect (collect found first) second := by
  induction first generalizing found with
  | nil => rfl
  | cons s first ih => exact ih _

/-- What is added keeps its order, and nothing that is offered is lost but to a source that
agrees. -/
theorem exists_collect_eq (found new : List Source) :
    ∃ added, collect found new = found ++ added ∧ added.Sublist new ∧
      (Distinct found → Distinct (found ++ added)) ∧
      ∀ s ∈ new, isAmong (found ++ added) s.name := by
  induction new generalizing found with
  | nil => exact ⟨[], by simp [collect]⟩
  | cons s new ih =>
    rw [collect]
    split
    · next hs =>
      obtain ⟨added, hcollect, hsublist, hdistinct, hnames⟩ := ih found
      refine ⟨added, hcollect, hsublist.cons s, hdistinct, ?_⟩
      intro t ht
      rcases List.mem_cons.1 ht with rfl | ht
      · simp [hs]
      · exact hnames t ht
    · next hs =>
      obtain ⟨added, hcollect, hsublist, hdistinct, hnames⟩ := ih (found ++ [s])
      rw [List.append_assoc, List.singleton_append] at hcollect hdistinct hnames
      refine ⟨s :: added, hcollect, hsublist.cons_cons s, ?_, ?_⟩
      · intro hfound
        exact hdistinct (hfound.concat hs)
      · intro t ht
        rcases List.mem_cons.1 ht with rfl | ht
        · exact isAmong_of_mem (by simp)
        · exact hnames t ht

/-- Of the sources whose names are not there yet, the first ones are added. -/
theorem collect_eq_eraseDupsBy (found new : List Source) :
    collect found new = found ++ (new.filter (!isAmong found ·.name)).eraseDupsBy agree := by
  induction new generalizing found with
  | nil => simp [collect]
  | cons s new ih =>
    rw [collect]
    split
    · next hs => rw [ih found, List.filter_cons_of_neg (by simpa using hs)]
    · next hs =>
      have hfilter : new.filter (!isAmong (found ++ [s]) ·.name) =
          (new.filter (!isAmong found ·.name)).filter fun t => decide (agree t s = false) := by
        rw [List.filter_filter]
        congr 1
        funext t
        have hone : isAmong [s] t.name = agree t s := by
          simp only [isAmong, agree, List.any_cons, List.any_nil, Bool.or_false]
          exact Bool.beq_comm
        rw [isAmong_append, hone, Bool.not_or, Bool.and_comm]
        simp
      rw [ih (found ++ [s]), List.filter_cons_of_pos (by simpa using hs), List.eraseDupsBy_cons,
        hfilter, List.append_assoc, List.singleton_append]

/-- Starting from nothing, the first of all sources that agree is kept. -/
theorem collect_nil (sources : List Source) : collect [] sources = sources.eraseDupsBy agree := by
  have hall : sources.filter (!isAmong [] ·.name) = sources := by
    rw [List.filter_eq_self]
    intro s _
    rfl
  rw [collect_eq_eraseDupsBy, hall, List.nil_append]

theorem eraseDupsBy_sublist (sources : List Source) :
    (sources.eraseDupsBy agree).Sublist sources := by
  obtain ⟨added, hcollect, hsublist, _⟩ := exists_collect_eq [] sources
  rw [collect_nil, List.nil_append] at hcollect
  rw [hcollect]
  exact hsublist

end ComponentTags.Source
