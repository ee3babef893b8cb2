import Mathlib
import ComponentTags.Proofs.Document.Stages

/-!
# Documents are closed

Every template that a document refers to is part of it if its file is there and not excluded, and a
source that is there for a reference is mentioned by one before it.
-/

namespace ComponentTags.Site

variable {site : Site}

theorem referenced?_eq_none_iff {name : Text} :
    site.referenced? name = none ↔
      site.files.isFile (site.pathOf name) = false ∨ site.excludes (site.pathOf name) = true := by
  simp only [referenced?]
  cases site.files.isFile (site.pathOf name) <;> cases site.excludes (site.pathOf name) <;> simp

/-- Searches end, references are followed by a search, and what comes out is closed under references
and holds nothing that no earlier source refers to. -/
theorem closed_under_references (site : Site) :
    (WellFounded fun next s => site.SearchStep s next) ∧
    (∀ found queue, ∃ last,
      Relation.ReflTransGen site.SearchStep ⟨found, [], queue⟩ last ∧
        site.SearchEnds last (site.discover found queue)) ∧
    ∀ layout target d, site.assembleFor layout target = .ok d →
      (∀ s ∈ d.sources, ∀ mention ∈ Source.mentions s.text,
        (∃ t ∈ d.sources, Text.lower t.name = Text.lower (site.normalize mention)) ∨
          site.files.isFile (site.pathOf (site.normalize mention)) = false ∨
          site.excludes (site.pathOf (site.normalize mention)) = true) ∧
      ∀ before s after, d.sources = before ++ s :: after → s.kind = .referenced →
        ∃ t ∈ before, ∃ mention ∈ Source.mentions t.text, s.name = site.normalize mention := by
  refine ⟨wellFounded_searchStep site, ?_, ?_⟩
  · intro found queue
    exact exists_run_discoverFrom site _ found [] queue _ _
  intro layout target d h
  obtain ⟨st⟩ := nonempty_stages h
  obtain ⟨referenced, shared, later, hadded⟩ := st.exists_added
  constructor
  · intro s hs mention hmention
    have hsettled := hadded.settled s hs _ (List.mem_map_of_mem hmention)
    exact hsettled.imp Source.isAmong_iff.1 referenced?_eq_none_iff.1
  · intro before s after hsources hkind
    obtain ⟨t, ht, hname⟩ := hadded.justified before s after hsources hkind
    obtain ⟨mention, hmention, heq⟩ := List.mem_map.1 hname
    exact ⟨t, ht, mention, hmention, heq.symm⟩

/-- A site whose fragments refer to each other in a circle, in different cases of their names. -/
def circleSite : Site where
  files := {
    top := .folder [
      (['p'], .folder [
        (['h'], .file (some "\x7b#extends \"f\"#\x7d\x7b%include \"a\"%\x7d".toList)),
        (['i'], .file (some []))]),
      (['f'], .file (some [])),
      (['a'], .file (some "\x7b%include \"e\"%\x7d".toList)),
      (['e'], .file (some "\x7b%include \"A\"%\x7d\x7b%include \"x\"%\x7d".toList)),
      (['c'], .file (some [])),
      (['g'], .file (some [])),
      (['s'], .folder [
        (['n'], .file (some "\x7b%include \"g\"%\x7d".toList))])] }
  root := ['/']
  options := {
    extension := []
    sharedFolder := ['s']
    componentsFolder := ['k']
    debug := false
    autoescape := true
    exclude := []
    pattern? := Glob.accepts? }

def circleTarget : Target :=
  .named "p/h".toList [['c']]

theorem exists_assembleFor_circleTarget :
    ∃ d, circleSite.assembleFor none circleTarget = .ok d ∧
      d.sources.map (fun s => (String.ofList s.name, s.kind)) =
        [("f", .layout), ("p/h", .entry), ("p/i", .sibling), ("c", .extra), ("a", .referenced),
          ("e", .referenced), ("n", .shared), ("g", .referenced)] := by
  have hkinds : ((circleSite.assembleFor none circleTarget).map fun d =>
      d.sources.map fun s => (String.ofList s.name, s.kind)) =
      .ok [("f", .layout), ("p/h", .entry), ("p/i", .sibling), ("c", .extra), ("a", .referenced),
        ("e", .referenced), ("n", .shared), ("g", .referenced)] := by
    cbv
  cases h : circleSite.assembleFor none circleTarget with
  | error e =>
    rw [h] at hkinds
    cases hkinds
  | ok d =>
    rw [h] at hkinds
    exact ⟨d, rfl, Except.ok.inj hkinds⟩

/-- The circle is gone through once, and what is not there is left out. -/
theorem closed_under_references_circleTarget :
    ∃ d, circleSite.assembleFor none circleTarget = .ok d ∧
      d.sources.map (fun s => String.ofList s.name) =
        ["f", "p/h", "p/i", "c", "a", "e", "n", "g"] ∧
      ∀ s ∈ d.sources, ∀ mention ∈ Source.mentions s.text,
        (∃ t ∈ d.sources, Text.lower t.name = Text.lower (circleSite.normalize mention)) ∨
          circleSite.files.isFile (circleSite.pathOf (circleSite.normalize mention)) = false ∨
          circleSite.excludes (circleSite.pathOf (circleSite.normalize mention)) = true := by
  obtain ⟨d, hd, hsources⟩ := exists_assembleFor_circleTarget
  obtain ⟨-, -, hclosed⟩ := closed_under_references circleSite
  refine ⟨d, hd, ?_, (hclosed none circleTarget d hd).1⟩
  have hnames := congrArg (List.map Prod.fst) hsources
  rw [List.map_map] at hnames
  exact hnames

end ComponentTags.Site
