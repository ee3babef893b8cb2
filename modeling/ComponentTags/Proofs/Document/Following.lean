import Mathlib
import ComponentTags.Proofs.Document.Entry

/-!
# Following layouts

From an entry the layouts are followed outward, from the name that a file declares to the file of
that name. The names are those of a sequence that has no end of its own, as two files can name each
other. But there are only so many files to declare names, so either a name comes back, or one has no
file, or a layout declares none. Whichever comes first decides what is answered.
-/

namespace ComponentTags.Site

/-- The layout that the file of a name declares, as it is looked up. -/
def declared? (site : Site) (name : Text) : Option Text :=
  match site.read .layout name (site.pathOf name) with
  | .error _ => none
  | .ok source => source.directive.map fun d => site.normalize d.layout

/-- The names of the layouts of an entry, from the innermost on: the one that is asked for or else
declared by the entry, and then each the one that the file before it declares. -/
def layoutName? (site : Site) (entry : Source) (explicit : Option Text) : Nat → Option Text
  | 0 => (explicit.or (entry.directive.map Directive.layout)).map site.normalize
  | i + 1 => (site.layoutName? entry explicit i).bind site.declared?

theorem exists_read_of_declared? {site : Site} {name outer : Text}
    (h : site.declared? name = some outer) :
    ∃ source, site.read .layout name (site.pathOf name) = .ok source ∧
      (source.directive.map fun d => site.normalize d.layout) = some outer := by
  unfold declared? at h
  split at h
  · cases h
  · next source hread => exact ⟨source, hread, h⟩

variable (site : Site) (entry : Source) (explicit : Option Text)

/-- The names of the layouts before an index. -/
def namesBefore (i : Nat) : List Text :=
  (List.range i).filterMap (site.layoutName? entry explicit)

/-- The layout at an index has the name of the entry or of a layout before it, but for the case of
ASCII letters. -/
def Recurs (i : Nat) : Prop :=
  ∃ name ∈ site.layoutName? entry explicit i,
    ∃ earlier ∈ entry.name :: site.namesBefore entry explicit i, Text.eqIgnoringCase name earlier

/-- The layout at an index is a new one, and its file is read. -/
def Passes (i : Nat) : Prop :=
  ¬site.Recurs entry explicit i ∧ ∃ name ∈ site.layoutName? entry explicit i,
    ∃ source, site.read .layout name (site.pathOf name) = .ok source

/-- What is answered where following the layouts ends. -/
inductive EndsAt (i : Nat) : Except Error (List Source) → Prop
  | cycle : site.Recurs entry explicit i →
      EndsAt i (.error (.layoutCycle (Text.join " -> ".toList
        (entry.name :: site.namesBefore entry explicit (i + 1)))))
  | notFound {name : Text} : ¬site.Recurs entry explicit i →
      site.layoutName? entry explicit i = some name →
      ¬site.files.isFile (site.pathOf name) →
      EndsAt i (.error (.layoutNotFound name
        ((site.namesBefore entry explicit i).getLastD entry.name)))
  | unreadable {name : Text} {e : Error} : ¬site.Recurs entry explicit i →
      site.layoutName? entry explicit i = some name → site.files.isFile (site.pathOf name) →
      site.read .layout name (site.pathOf name) = .error e → EndsAt i (.error e)
  | outermost {sources : List Source} : site.layoutName? entry explicit i = none →
      List.Forall₂ (fun name source => site.read .layout name (site.pathOf name) = .ok source)
        (site.namesBefore entry explicit i) sources →
      EndsAt i (.ok sources.reverse)

variable {site entry explicit}

theorem namesBefore_zero : site.namesBefore entry explicit 0 = [] := rfl

theorem namesBefore_succ {i : Nat} {name : Text}
    (h : site.layoutName? entry explicit i = some name) :
    site.namesBefore entry explicit (i + 1) = site.namesBefore entry explicit i ++ [name] := by
  simp [namesBefore, List.range_succ, h]

theorem isFile_of_read {kind : Source.Kind} {name path : Text} {source : Source}
    (h : site.read kind name path = .ok source) : site.files.isFile path := by
  unfold read FileSystem.read at h
  unfold FileSystem.isFile
  split at h
  · cases h
  · next hread =>
    split at hread <;> simp_all

/-- Where following ends it does not go on. -/
theorem EndsAt.not_passes {i : Nat} {result : Except Error (List Source)}
    (h : site.EndsAt entry explicit i result) : ¬site.Passes entry explicit i := by
  rintro ⟨hnew, name, hname, source, hread⟩
  cases h with
  | cycle hrecurs => exact hnew hrecurs
  | notFound _ hname' hfile =>
    cases hname.symm.trans hname'
    exact hfile (isFile_of_read hread)
  | unreadable _ hname' _ hread' =>
    cases hname.symm.trans hname'
    cases hread.symm.trans hread'
  | outermost hnone => cases hname.symm.trans hnone

/-- Nothing else is answered there. -/
theorem EndsAt.unique {i : Nat} {result result' : Except Error (List Source)}
    (h : site.EndsAt entry explicit i result) (h' : site.EndsAt entry explicit i result') :
    result = result' := by
  cases h with
  | cycle hrecurs =>
    cases h' with
    | cycle => rfl
    | notFound hnew | unreadable hnew => exact absurd hrecurs hnew
    | outermost hnone =>
      obtain ⟨name, hname, -⟩ := hrecurs
      cases hname.symm.trans hnone
  | notFound hnew hname hfile =>
    cases h' with
    | cycle hrecurs => exact absurd hrecurs hnew
    | notFound _ hname' =>
      cases hname.symm.trans hname'
      rfl
    | unreadable _ hname' hfile' =>
      cases hname.symm.trans hname'
      exact absurd hfile' hfile
    | outermost hnone => cases hname.symm.trans hnone
  | unreadable hnew hname hfile hread =>
    cases h' with
    | cycle hrecurs => exact absurd hrecurs hnew
    | notFound _ hname' hfile' =>
      cases hname.symm.trans hname'
      exact absurd hfile hfile'
    | unreadable _ hname' _ hread' =>
      cases hname.symm.trans hname'
      cases hread.symm.trans hread'
      rfl
    | outermost hnone => cases hname.symm.trans hnone
  | outermost hnone hsources =>
    cases h' with
    | cycle hrecurs =>
      obtain ⟨name, hname, -⟩ := hrecurs
      cases hname.symm.trans hnone
    | notFound _ hname | unreadable _ hname => cases hname.symm.trans hnone
    | outermost _ hsources' =>
      have hunique : Relator.RightUnique fun name source =>
          site.read .layout name (site.pathOf name) = .ok source :=
        fun name source source' h h' => Except.ok.inj (h.symm.trans h')
      rw [List.right_unique_forall₂' hunique hsources hsources']

/-- The end is at one index only. -/
theorem EndsAt.eq {i j : Nat} {result result' : Except Error (List Source)}
    (h : site.EndsAt entry explicit i result) (hi : ∀ k < i, site.Passes entry explicit k)
    (h' : site.EndsAt entry explicit j result') (hj : ∀ k < j, site.Passes entry explicit k) :
    result = result' := by
  rcases Nat.lt_trichotomy i j with hlt | rfl | hlt
  · exact absurd (hj i hlt) h.not_passes
  · exact h.unique h'
  · exact absurd (hi j hlt) h'.not_passes

theorem recurs_iff_isVisited {i : Nat} {visited : List Text} {layout : Text}
    (hvisited : visited = entry.name :: site.namesBefore entry explicit i)
    (hname : site.layoutName? entry explicit i = some layout) :
    site.Recurs entry explicit i ↔ isVisited visited layout := by
  rw [Recurs, hname, hvisited, isVisited, List.any_eq_true]
  simp

/-- A layout that declares another one has been read. -/
theorem passes_of_layoutName? {i : Nat} {names : List Text} {name outer : Text}
    (hnames : site.namesBefore entry explicit i = names)
    (hname : site.layoutName? entry explicit i = some name)
    (hnext : site.layoutName? entry explicit (i + 1) = some outer)
    (hnew : isVisited (entry.name :: names) name = false) : site.Passes entry explicit i := by
  rw [layoutName?, hname, Option.bind_some] at hnext
  obtain ⟨source, hread, -⟩ := exists_read_of_declared? hnext
  refine ⟨?_, name, hname, source, hread⟩
  rw [recurs_iff_isVisited rfl hname, hnames, hnew]
  exact Bool.false_ne_true

/-- The layouts before an index are read. `inner` are their files, the outermost first. -/
structure Reaches (site : Site) (entry : Source) (explicit : Option Text) (i : Nat)
    (inner : List Source) : Prop where
  passes : ∀ j < i, site.Passes entry explicit j
  read : List.Forall₂ (fun name source => site.read .layout name (site.pathOf name) = .ok source)
    (site.namesBefore entry explicit i) inner.reverse

theorem Reaches.succ {i : Nat} {inner : List Source} {layout : Text} {source : Source}
    (h : site.Reaches entry explicit i inner) (hnew : ¬site.Recurs entry explicit i)
    (hname : site.layoutName? entry explicit i = some layout)
    (hread : site.read .layout layout (site.pathOf layout) = .ok source) :
    site.Reaches entry explicit (i + 1) (source :: inner) ∧
      site.layoutName? entry explicit (i + 1) =
        source.directive.map fun d => site.normalize d.layout := by
  refine ⟨⟨fun j hj => ?_, ?_⟩, ?_⟩
  · rcases Nat.lt_succ_iff_lt_or_eq.1 hj with hj | rfl
    · exact h.passes j hj
    · exact ⟨hnew, layout, hname, source, hread⟩
  · rw [namesBefore_succ hname, List.reverse_cons]
    exact List.rel_append h.read (.cons hread .nil)
  · rw [layoutName?, hname, Option.bind_some, declared?, hread]

/-- From an index on, the layouts are followed to the end and put before the inner ones. -/
theorem exists_endsAt_layoutsFrom {first : Text} {visited : List Text} {declaredBy layout : Text}
    {hlayout : layout ∈ site.layoutNames first} {i : Nat} {inner : List Source}
    (hvisited : visited = entry.name :: site.namesBefore entry explicit i)
    (hdeclared : declaredBy = (site.namesBefore entry explicit i).getLastD entry.name)
    (hname : site.layoutName? entry explicit i = some layout)
    (hreaches : site.Reaches entry explicit i inner) :
    ∃ k, (∀ j < k, site.Passes entry explicit j) ∧ site.EndsAt entry explicit k
      ((site.layoutsFrom first visited declaredBy layout hlayout).map (· ++ inner)) := by
  fun_induction layoutsFrom site first visited declaredBy layout hlayout generalizing i inner with
  | case1 visited declaredBy layout hlayout hv =>
    have hend := EndsAt.cycle ((recurs_iff_isVisited hvisited hname).2 hv)
    rw [namesBefore_succ hname, ← List.cons_append, ← hvisited] at hend
    exact ⟨i, hreaches.passes, hend⟩
  | case2 visited declaredBy layout hlayout hv hfile e hread =>
    have hnew := mt (recurs_iff_isVisited hvisited hname).1 hv
    exact ⟨i, hreaches.passes, .unreadable hnew hname hfile hread⟩
  | case3 visited declaredBy layout hlayout hv hfile source hread hd =>
    have hnew := mt (recurs_iff_isVisited hvisited hname).1 hv
    obtain ⟨hreaches, hnext⟩ := hreaches.succ hnew hname hread
    rw [hd] at hnext
    have hend := EndsAt.outermost hnext hreaches.read
    rw [List.reverse_reverse] at hend
    exact ⟨i + 1, hreaches.passes, hend⟩
  | case4 visited declaredBy layout hlayout hv hfile source hread d hd hmem _ e he ih =>
    have hnew := mt (recurs_iff_isVisited hvisited hname).1 hv
    obtain ⟨hreaches, hnext⟩ := hreaches.succ hnew hname hread
    rw [hd] at hnext
    have hend := ih (by simp [hvisited, namesBefore_succ hname]) (by simp [namesBefore_succ hname])
      hnext hreaches
    rwa [he] at hend
  | case5 visited declaredBy layout hlayout hv hfile source hread d hd _ _ outer houter ih =>
    have hnew := mt (recurs_iff_isVisited hvisited hname).1 hv
    obtain ⟨hreaches, hnext⟩ := hreaches.succ hnew hname hread
    rw [hd] at hnext
    have hend := ih (by simp [hvisited, namesBefore_succ hname]) (by simp [namesBefore_succ hname])
      hnext hreaches
    rw [houter] at hend
    simpa [Except.map] using hend
  | case6 visited declaredBy layout hlayout hv hfile =>
    subst hdeclared
    have hnew := mt (recurs_iff_isVisited hvisited hname).1 hv
    exact ⟨i, hreaches.passes, .notFound hnew hname hfile⟩

theorem reaches_zero : site.Reaches entry explicit 0 [] where
  passes := by simp
  read := .nil

/-- The layouts of an entry are what is answered where following them ends. -/
theorem exists_endsAt_layouts (site : Site) (entry : Source) (explicit : Option Text) :
    ∃ i, (∀ j < i, site.Passes entry explicit j) ∧
      site.EndsAt entry explicit i (site.layouts entry explicit) := by
  unfold layouts
  split
  · next hnone =>
    have hname : site.layoutName? entry explicit 0 = none := by
      rw [layoutName?, hnone]
      rfl
    have hend : site.EndsAt entry explicit 0 (.ok ([] : List Source).reverse) :=
      .outermost hname .nil
    exact ⟨0, by simp, hend⟩
  · next name hsome =>
    have hname : site.layoutName? entry explicit 0 = some (site.normalize name) := by
      rw [layoutName?, hsome]
      rfl
    have hnone (result : Except Error (List Source)) : result.map (· ++ []) = result := by
      cases result <;> simp [Except.map]
    have hlayout : site.normalize name ∈ site.layoutNames (site.normalize name) :=
      List.mem_cons_self ..
    obtain ⟨k, hpasses, hend⟩ : ∃ k, (∀ j < k, site.Passes entry explicit j) ∧
        site.EndsAt entry explicit k ((site.layoutsFrom (site.normalize name) [entry.name]
          entry.name (site.normalize name) hlayout).map (· ++ [])) :=
      exists_endsAt_layoutsFrom rfl rfl hname reaches_zero
    rw [hnone] at hend
    exact ⟨k, hpasses, hend⟩

/-! ## How far they are followed -/

/-- A layout is one that the request or the entry names, or one that some file declares. -/
theorem mem_layoutNames_of_layoutName? {i : Nat} {first name : Text}
    (hfirst : site.layoutName? entry explicit 0 = some first)
    (h : site.layoutName? entry explicit i = some name) : name ∈ site.layoutNames first := by
  cases i with
  | zero =>
    cases hfirst.symm.trans h
    exact List.mem_cons_self ..
  | succ i =>
    obtain ⟨inner, -, hdeclared⟩ := Option.bind_eq_some_iff.1 h
    obtain ⟨source, hread, hname⟩ := exists_read_of_declared? hdeclared
    exact List.mem_cons_of_mem _ (List.mem_filterMap.2
      ⟨source.text, mem_texts_of_read hread, hname⟩)

/-- Names of layouts that are passed are told apart. -/
theorem nodup_namesBefore {i : Nat} (h : ∀ j < i, site.Passes entry explicit j) :
    (site.namesBefore entry explicit i).Nodup ∧ (site.namesBefore entry explicit i).length = i := by
  induction i with
  | zero => exact ⟨List.nodup_nil, rfl⟩
  | succ i ih =>
    obtain ⟨hnodup, hlength⟩ := ih fun j hj => h j (Nat.lt_succ_of_lt hj)
    obtain ⟨hnew, name, hname, -⟩ := h i (Nat.lt_succ_self i)
    rw [namesBefore_succ hname]
    refine ⟨?_, by simp [hlength]⟩
    refine List.nodup_append.2 ⟨hnodup, List.nodup_singleton _, ?_⟩
    rintro earlier hearlier _ hlast rfl
    obtain rfl := List.mem_singleton.1 hlast
    have heq : Text.eqIgnoringCase earlier earlier := by simp [Text.eqIgnoringCase]
    exact hnew ⟨earlier, hname, earlier, List.mem_cons_of_mem _ hearlier, heq⟩

/-- Only as many layouts are passed as there are files, and one more. -/
theorem le_of_passes {i : Nat} (h : ∀ j < i, site.Passes entry explicit j) :
    i ≤ site.files.top.texts.length + 1 := by
  obtain ⟨hnodup, hlength⟩ := nodup_namesBefore h
  cases hfirst : site.layoutName? entry explicit 0 with
  | none =>
    cases i with
    | zero => omega
    | succ i =>
      obtain ⟨-, name, hname, -⟩ := h 0 (Nat.succ_pos i)
      cases hname.symm.trans hfirst
  | some first =>
    have hsub : site.namesBefore entry explicit i ⊆ site.layoutNames first := by
      intro name hname
      obtain ⟨j, -, hname⟩ := List.mem_filterMap.1 hname
      exact mem_layoutNames_of_layoutName? hfirst hname
    have hle := (hnodup.subperm hsub).length_le
    have hdeclared := List.length_filterMap_le
      (fun text => (Directive.find? text).map fun d => site.normalize d.layout) (site.texts [])
    simp only [layoutNames, List.length_cons, texts, List.nil_append] at hle hdeclared
    omega

/-- The layouts are followed over at most as many names as there are files, and one more. The answer
is that of the index where they end, and no other index could give another. -/
theorem layouts_endsAt (site : Site) (entry : Source) (explicit : Option Text) :
    (∃ i ≤ site.files.top.texts.length + 1, (∀ j < i, site.Passes entry explicit j) ∧
      site.EndsAt entry explicit i (site.layouts entry explicit)) ∧
    ∀ i result, (∀ j < i, site.Passes entry explicit j) → site.EndsAt entry explicit i result →
      site.layouts entry explicit = result := by
  obtain ⟨i, hpasses, hend⟩ := exists_endsAt_layouts site entry explicit
  exact ⟨⟨i, le_of_passes hpasses, hpasses, hend⟩, fun j result hj h => hend.eq hpasses h hj⟩

/-- A page with two layouts, of which the outer one extends the inner one, in another spelling. -/
def turningSite : Site :=
  .ofFiles [("page.tmpl", "\x7b# extends \"a\" #\x7d"),
    ("a.tmpl", "\x7b# extends \"b.tmpl\" #\x7d"), ("b.tmpl", "\x7b% extends \"./A\" %\x7d")]

def turningPage : Source :=
  .ofText "page".toList none .entry "\x7b# extends \"a\" #\x7d".toList

theorem layoutName?_turningPage :
    turningSite.layoutName? turningPage none 0 = some ['a'] ∧
      turningSite.layoutName? turningPage none 1 = some ['b'] ∧
      turningSite.layoutName? turningPage none 2 = some ['A'] := by
  refine ⟨?_, ?_, ?_⟩ <;> cbv

theorem layouts_endsAt_turningSite :
    (∀ j < 2, turningSite.Passes turningPage none j) ∧
      turningSite.Recurs turningPage none 2 ∧
      turningSite.layouts turningPage none =
        .error (.layoutCycle "page -> a -> b -> A".toList) := by
  obtain ⟨hfirst, hsecond, hthird⟩ := layoutName?_turningPage
  have hname : turningPage.name = "page".toList := rfl
  have hone := namesBefore_succ hfirst
  rw [namesBefore_zero, List.nil_append] at hone
  have htwo := namesBefore_succ hsecond
  rw [hone] at htwo
  have hthree := namesBefore_succ hthird
  rw [htwo] at hthree
  have hpasses : ∀ j < 2, turningSite.Passes turningPage none j
    | 0, _ => passes_of_layoutName? namesBefore_zero hfirst hsecond (by rw [hname]; decide)
    | 1, _ => passes_of_layoutName? hone hsecond hthird (by rw [hname]; decide)
  have hrecurs : turningSite.Recurs turningPage none 2 := by
    rw [recurs_iff_isVisited rfl hthird, htwo, hname]
    decide
  have hanswer := (layouts_endsAt turningSite turningPage none).2 2 _ hpasses (.cycle hrecurs)
  rw [hthree, hname] at hanswer
  exact ⟨hpasses, hrecurs, hanswer⟩

end ComponentTags.Site
