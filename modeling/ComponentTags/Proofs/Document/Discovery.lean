import Mathlib
import ComponentTags.Proofs.Document.Collected
import ComponentTags.Proofs.Document.Layouts

/-!
# Following references

References are followed by a search that opens the sources one after the other in the order they
were found. Each name that an opened source mentions is settled: its source is found, or there is
none to find. A step either settles a name or opens a source, and only a name that is new adds one,
so every search ends, also if sources refer to each other in a circle.
-/

namespace ComponentTags.Site

open Source (isAmong Distinct)

/-- The names of the templates that a source refers to. -/
def mentioned (site : Site) (s : Source) : List Text :=
  (Source.mentions s.text).map site.normalize

/-- What a search has found, and what it still has to look at. -/
structure Search where
  found : List Source
  /-- Names that the source opened last mentions. -/
  names : List Text
  /-- Sources that have not been opened. -/
  queue : List Source

inductive SearchStep (site : Site) : Search → Search → Prop
  | next {found : List Source} {s : Source} {queue : List Source} :
      SearchStep site ⟨found, [], s :: queue⟩ ⟨found, site.mentioned s, queue⟩
  | skip {found : List Source} {name : Text} {names : List Text} {queue : List Source}
      (h : isAmong found name ∨ site.referenced? name = none) :
      SearchStep site ⟨found, name :: names, queue⟩ ⟨found, names, queue⟩
  | add {found : List Source} {name : Text} {names : List Text} {queue : List Source}
      {source : Source} (hf : ¬isAmong found name)
      (hr : site.referenced? name = some (.ok source)) :
      SearchStep site ⟨found, name :: names, queue⟩ ⟨found ++ [source], names, queue ++ [source]⟩

/-- The result of a search that takes no more steps. -/
inductive SearchEnds (site : Site) : Search → Except Error (List Source) → Prop
  | done {found : List Source} : SearchEnds site ⟨found, [], []⟩ (.ok found)
  | fault {found : List Source} {name : Text} {names : List Text} {queue : List Source}
      {e : Error} (hf : ¬isAmong found name) (hr : site.referenced? name = some (.error e)) :
      SearchEnds site ⟨found, name :: names, queue⟩ (.error e)

variable {site : Site}

/-- References are followed by the steps of a search up to its end. -/
theorem exists_run_discoverFrom (site : Site) (start : List Text) (found : List Source)
    (names : List Text)
    (queue : List Source) (hn : ∀ n ∈ names, n ∈ site.mentionedNames start)
    (hq : ∀ s ∈ queue, s.text ∈ site.texts start) :
    ∃ last, Relation.ReflTransGen site.SearchStep ⟨found, names, queue⟩ last ∧
      site.SearchEnds last (site.discoverFrom start found names queue hn hq) := by
  fun_induction discoverFrom site start found names queue hn hq with
  | case1 => exact ⟨_, .refl, .done⟩
  | case2 found s queue hn hq _ _ ih =>
    obtain ⟨last, hrun, hend⟩ := ih
    exact ⟨last, hrun.head .next, hend⟩
  | case3 found name names queue hn hq hn' hf _ _ ih =>
    obtain ⟨last, hrun, hend⟩ := ih
    exact ⟨last, hrun.head (.skip (.inl hf)), hend⟩
  | case4 found name names queue hn hq hn' hf hr _ _ ih =>
    obtain ⟨last, hrun, hend⟩ := ih
    exact ⟨last, hrun.head (.skip (.inr hr)), hend⟩
  | case5 found name names queue hn hq hn' hf e hr => exact ⟨_, .refl, .fault hf hr⟩
  | case6 found name names queue hn hq hn' hf source hr _ _ ih =>
    obtain ⟨last, hrun, hend⟩ := ih
    exact ⟨last, hrun.head (.add hf hr), hend⟩

theorem exists_run_discover (site : Site) (found queue : List Source) :
    ∃ last, Relation.ReflTransGen site.SearchStep ⟨found, [], queue⟩ last ∧
      site.SearchEnds last (site.discover found queue) :=
  exists_run_discoverFrom site (queue.map Source.text) found [] queue (by simp) fun _ hs =>
    List.mem_append_left _ (List.mem_map_of_mem hs)

/-! ## Searches end -/

/-- The names that a search may still come to. -/
def Search.pool (site : Site) (s : Search) : List Text :=
  s.names ++ s.queue.flatMap site.mentioned ++ site.mentionedNames []

/-- The names that a search may still add, as a set. -/
def Search.fresh (site : Site) (s : Search) : Finset Text :=
  (s.pool site).toFinset.filter fun name => ¬isAmong s.found name

def Search.measure (site : Site) (s : Search) : Nat × Nat × Nat :=
  ((s.fresh site).card, s.queue.length, s.names.length)

theorem Search.mem_fresh {s : Search} {name : Text} :
    name ∈ s.fresh site ↔ name ∈ s.pool site ∧ ¬isAmong s.found name := by
  simp only [Search.fresh, Finset.mem_filter, List.mem_toFinset]

/-- The names that a file mentions are among those that any text mentions. -/
theorem mem_mentionedNames_of_referenced? {name name' : Text} {source : Source}
    (h : site.referenced? name = some (.ok source)) (hm : name' ∈ site.mentioned source) :
    name' ∈ site.mentionedNames [] := by
  refine List.mem_flatMap.2 ⟨source.text, ?_, hm⟩
  exact (referenced?_eq_ok h).1

/-- Finding a source uses up its name, and what the source mentions was in the pool before. -/
theorem Search.fresh_ssubset {found : List Source} {name : Text} {names : List Text}
    {queue : List Source} {source : Source} (hf : ¬isAmong found name)
    (hr : site.referenced? name = some (.ok source)) :
    Search.fresh site ⟨found ++ [source], names, queue ++ [source]⟩ ⊂
      Search.fresh site ⟨found, name :: names, queue⟩ := by
  refine (Finset.ssubset_iff_of_subset ?_).2 ⟨name, ?_, ?_⟩
  · intro name' hname
    obtain ⟨hpool, hnew⟩ := mem_fresh.1 hname
    refine mem_fresh.2 ⟨?_, ?_⟩
    · simp only [pool, List.mem_append, List.flatMap_append, List.mem_cons] at hpool ⊢
      rcases hpool with (hnames | hqueue | hsource) | hfiles
      · exact .inl (.inl (.inr hnames))
      · exact .inl (.inr hqueue)
      · refine .inr (mem_mentionedNames_of_referenced? hr ?_)
        simpa using hsource
      · exact .inr hfiles
    · intro hold
      exact hnew (Source.isAmong_mono (List.subset_append_left _ _) hold)
  · exact mem_fresh.2 ⟨List.mem_cons_self .., hf⟩
  · intro hname
    refine (mem_fresh.1 hname).2 ?_
    rw [← (referenced?_eq_ok hr).2]
    exact Source.isAmong_of_mem (by simp)

theorem Search.measure_lt {s next : Search} (hsub : next.fresh site ⊆ s.fresh site)
    (hlt : Prod.Lex (· < ·) (· < ·) (next.queue.length, next.names.length)
      (s.queue.length, s.names.length)) :
    Prod.Lex (· < ·) (Prod.Lex (· < ·) (· < ·)) (next.measure site) (s.measure site) := by
  rcases (Finset.card_le_card hsub).lt_or_eq with hcard | hcard
  · exact Prod.Lex.left _ _ hcard
  · rw [measure, hcard]
    exact Prod.Lex.right _ hlt

theorem SearchStep.measure_lt {s next : Search} (h : site.SearchStep s next) :
    Prod.Lex (· < ·) (Prod.Lex (· < ·) (· < ·)) (next.measure site) (s.measure site) := by
  cases h with
  | next =>
    refine Search.measure_lt ?_ (Prod.Lex.left _ _ (Nat.lt_succ_self _))
    intro name hname
    simpa [Search.mem_fresh, Search.pool] using hname
  | skip =>
    refine Search.measure_lt ?_ (Prod.Lex.right _ (Nat.lt_succ_self _))
    intro name hname
    obtain ⟨hpool, hnew⟩ := Search.mem_fresh.1 hname
    exact Search.mem_fresh.2 ⟨List.mem_cons_of_mem _ hpool, hnew⟩
  | add hf hr => exact Prod.Lex.left _ _ (Finset.card_lt_card (Search.fresh_ssubset hf hr))

/-- No search takes steps forever. -/
theorem wellFounded_searchStep (site : Site) :
    WellFounded fun next s => site.SearchStep s next := by
  have hlt : WellFounded (Prod.Lex (α := Nat) (β := Nat × Nat) (· < ·)
      (Prod.Lex (· < ·) (· < ·))) :=
    WellFounded.prod_lex wellFounded_lt (WellFounded.prod_lex wellFounded_lt wellFounded_lt)
  exact Subrelation.wf SearchStep.measure_lt (InvImage.wf (Search.measure site) hlt)

/-! ## Searches are deterministic -/

theorem SearchStep.of_mentioned {found queue : List Source} {s : Source} {names : List Text}
    (h : site.mentioned s = names) :
    site.SearchStep ⟨found, [], s :: queue⟩ ⟨found, names, queue⟩ :=
  h ▸ .next

theorem SearchStep.eq {s next next' : Search} (h : site.SearchStep s next)
    (h' : site.SearchStep s next') : next = next' := by
  cases h with
  | next =>
    cases h'
    rfl
  | skip hskip =>
    cases h' with
    | skip _ => rfl
    | add hf hr =>
      rw [hskip.resolve_left hf] at hr
      cases hr
  | add hf hr =>
    cases h' with
    | skip hskip =>
      rw [hskip.resolve_left hf] at hr
      cases hr
    | add _ hr' =>
      rw [hr] at hr'
      cases hr'
      rfl

theorem SearchEnds.not_step {s next : Search} {result : Except Error (List Source)}
    (h : site.SearchEnds s result) : ¬site.SearchStep s next := by
  intro hstep
  cases h with
  | done => cases hstep
  | fault hf hr =>
    cases hstep with
    | skip hskip =>
      rw [hskip.resolve_left hf] at hr
      cases hr
    | add _ hr' =>
      rw [hr] at hr'
      cases hr'

theorem SearchEnds.eq {s : Search} {result result' : Except Error (List Source)}
    (h : site.SearchEnds s result) (h' : site.SearchEnds s result') : result = result' := by
  cases h with
  | done =>
    cases h'
    rfl
  | fault _ hr =>
    cases h' with
    | fault _ hr' =>
      rw [hr] at hr'
      cases hr'
      rfl

/-- Every run of a search to its end gives what references are followed to. -/
theorem discover_eq_of_run {found queue : List Source} {last : Search}
    {result : Except Error (List Source)}
    (hrun : Relation.ReflTransGen site.SearchStep ⟨found, [], queue⟩ last)
    (hend : site.SearchEnds last result) : site.discover found queue = result := by
  obtain ⟨last', hrun', hend'⟩ := exists_run_discover site found queue
  have hunique : Relator.RightUnique site.SearchStep := fun _ _ _ => SearchStep.eq
  have hlast : last' = last := by
    rcases Relation.ReflTransGen.total_of_right_unique hunique hrun' hrun with h | h
    · exact (h.cases_head).resolve_right fun ⟨_, hstep, _⟩ => hend'.not_step hstep
    · exact ((h.cases_head).resolve_right fun ⟨_, hstep, _⟩ => hend.not_step hstep).symm
  rw [hlast] at hend'
  exact hend'.eq hend

/-! ## What a search finds -/

/-- What holds of every source that a name refers to goes on holding of all that is found. -/
theorem SearchStep.forall_found {p : Source → Prop}
    (hp : ∀ name s, site.referenced? name = some (.ok s) → p s) {s next : Search}
    (hstep : site.SearchStep s next) (h : ∀ t ∈ s.found, p t) : ∀ t ∈ next.found, p t := by
  cases hstep with
  | next => exact h
  | skip _ => exact h
  | add _ hr => exact List.forall_mem_append.2 ⟨h, List.forall_mem_singleton.2 (hp _ _ hr)⟩

theorem forall_of_discover {p : Source → Prop}
    (hp : ∀ name s, site.referenced? name = some (.ok s) → p s)
    {found queue result : List Source} (h : ∀ t ∈ found, p t)
    (hresult : site.discover found queue = .ok result) : ∀ t ∈ result, p t := by
  obtain ⟨last, hrun, hend⟩ := exists_run_discover site found queue
  have hlast : ∀ t ∈ last.found, p t := by
    clear hend
    induction hrun with
    | refl => exact h
    | tail _ hstep ih => exact hstep.forall_found hp ih
  rw [hresult] at hend
  cases hend
  exact hlast

/-- Whether a search has nothing to do for a name: its source is there, or there is none to add. -/
def IsSettled (site : Site) (found : List Source) (name : Text) : Prop :=
  isAmong found name ∨ site.referenced? name = none

/-- Every source that was added for a reference is mentioned by one before it. -/
def Justified (site : Site) (sources : List Source) : Prop :=
  ∀ before s after, sources = before ++ s :: after → s.kind = .referenced →
    ∃ t ∈ before, s.name ∈ site.mentioned t

theorem IsSettled.mono {found found' : List Source} (h : found ⊆ found') {name : Text}
    (hn : site.IsSettled found name) : site.IsSettled found' name :=
  hn.imp_left (Source.isAmong_mono h)

theorem fields_of_referenced? {name : Text} {source : Source}
    (h : site.referenced? name = some (.ok source)) :
    source.kind = .referenced ∧ source.name = name := by
  unfold referenced? at h
  dsimp only at h
  split at h
  · obtain ⟨hkind, hname, _⟩ := fields_of_read (Option.some.inj h)
    exact ⟨hkind, hname⟩
  · cases h

theorem path_of_referenced? {name : Text} {source : Source}
    (h : site.referenced? name = some (.ok source)) :
    source.path = some (site.pathOf name) ∧ ¬site.excludes (site.pathOf name) := by
  unfold referenced? at h
  dsimp only at h
  split at h
  · next hfile =>
    rw [Bool.and_eq_true, Bool.not_eq_true'] at hfile
    exact ⟨(fields_of_read (Option.some.inj h)).2.2, by simp [hfile.2]⟩
  · cases h

theorem justified_of_forall_kind_ne {sources : List Source}
    (h : ∀ s ∈ sources, s.kind ≠ .referenced) : site.Justified sources := by
  intro before s after hsources hkind
  refine absurd hkind (h s ?_)
  simp [hsources]

theorem Justified.append {found added : List Source} (h : site.Justified found)
    (hadded : ∀ before s after, added = before ++ s :: after → s.kind = .referenced →
      ∃ t ∈ found ++ before, s.name ∈ site.mentioned t) :
    site.Justified (found ++ added) := by
  intro before s after hsources hkind
  rcases List.append_eq_append_iff.1 hsources with ⟨start, rfl, hafter⟩ | ⟨rest, rfl, hrest⟩
  · exact hadded start s after hafter hkind
  · cases rest with
    | nil =>
      have := hadded [] s after hrest.symm hkind
      simpa using this
    | cons t rest =>
      obtain ⟨rfl, hafter⟩ := List.cons.inj hrest
      exact h before s rest rfl hkind

/-- How far a search has come that was given the sources `start` behind others. -/
structure Progress (site : Site) (before start opened added : List Source) (s : Search) :
    Prop where
  found_eq : s.found = before ++ start ++ added
  opened_eq : start ++ added = opened ++ s.queue
  kind_eq : ∀ t ∈ added, t.kind = .referenced
  settled : ∀ t ∈ opened, ∀ name ∈ site.mentioned t, site.IsSettled s.found name ∨ name ∈ s.names
  mentioned : ∀ name ∈ s.names, ∃ t ∈ opened, name ∈ site.mentioned t
  distinct : Distinct s.found
  justified : site.Justified s.found

theorem Progress.init {before start : List Source} (hd : Distinct (before ++ start))
    (hj : site.Justified (before ++ start)) :
    Progress site before start [] [] ⟨before ++ start, [], start⟩ where
  found_eq := by simp
  opened_eq := by simp
  kind_eq := by simp
  settled := by simp
  mentioned := by simp
  distinct := hd
  justified := hj

theorem Progress.next {before start opened added found : List Source} {t : Source}
    {queue : List Source} (h : Progress site before start opened added ⟨found, [], t :: queue⟩) :
    Progress site before start (opened ++ [t]) added ⟨found, site.mentioned t, queue⟩ where
  found_eq := h.found_eq
  opened_eq := by simpa using h.opened_eq
  kind_eq := h.kind_eq
  settled := by
    intro u hu name hname
    rcases List.mem_append.1 hu with hu | hu
    · exact .inl ((h.settled u hu name hname).resolve_right (by simp))
    · rw [List.mem_singleton.1 hu] at hname
      exact .inr hname
  mentioned := by
    intro name hname
    exact ⟨t, by simp, hname⟩
  distinct := h.distinct
  justified := h.justified

theorem Progress.skip {before start opened added found : List Source} {name : Text}
    {names : List Text} {queue : List Source}
    (h : Progress site before start opened added ⟨found, name :: names, queue⟩)
    (hname : site.IsSettled found name) :
    Progress site before start opened added ⟨found, names, queue⟩ where
  found_eq := h.found_eq
  opened_eq := h.opened_eq
  kind_eq := h.kind_eq
  settled := by
    intro t ht name' hname'
    rcases h.settled t ht name' hname' with hdone | hrest
    · exact .inl hdone
    · rcases List.mem_cons.1 hrest with rfl | hrest
      · exact .inl hname
      · exact .inr hrest
  mentioned := by
    intro name' hname'
    exact h.mentioned name' (List.mem_cons_of_mem _ hname')
  distinct := h.distinct
  justified := h.justified

theorem Progress.add {before start opened added found : List Source} {name : Text}
    {names : List Text} {queue : List Source} {source : Source}
    (h : Progress site before start opened added ⟨found, name :: names, queue⟩)
    (hf : ¬isAmong found name) (hr : site.referenced? name = some (.ok source)) :
    Progress site before start opened (added ++ [source])
      ⟨found ++ [source], names, queue ++ [source]⟩ := by
  obtain ⟨hkind, hname⟩ := fields_of_referenced? hr
  have hfound : found = before ++ start ++ added := h.found_eq
  have hopened : start ++ added = opened ++ queue := h.opened_eq
  refine ⟨?_, ?_, ?_, ?_, ?_, ?_, ?_⟩
  · simp [hfound]
  · rw [← List.append_assoc, hopened, List.append_assoc]
  · intro t ht
    rcases List.mem_append.1 ht with ht | ht
    · exact h.kind_eq t ht
    · rw [List.mem_singleton.1 ht, hkind]
  · intro t ht name' hname'
    rcases h.settled t ht name' hname' with hdone | hrest
    · exact .inl (hdone.mono (List.subset_append_left _ _))
    · rcases List.mem_cons.1 hrest with rfl | hrest
      · refine .inl (.inl ?_)
        rw [← hname]
        exact Source.isAmong_of_mem (by simp)
      · exact .inr hrest
  · intro name' hname'
    exact h.mentioned name' (List.mem_cons_of_mem _ hname')
  · exact h.distinct.concat (hname ▸ hf)
  · -- An opened source mentions the name, and everything that is opened has been found.
    obtain ⟨t, ht, hmentions⟩ := h.mentioned name (List.mem_cons_self ..)
    have htfound : t ∈ found := by
      have : t ∈ start ++ added := hopened ▸ List.mem_append_left _ ht
      rw [hfound, List.append_assoc]
      exact List.mem_append_right _ this
    refine h.justified.append ?_
    intro first s after hsource _
    obtain ⟨rfl, rfl, rfl⟩ : first = [] ∧ s = source ∧ after = [] := by
      cases first <;> simp_all
    exact ⟨t, by simpa using htfound, hname ▸ hmentions⟩

theorem Progress.step {before start opened added : List Source} {s next : Search}
    (h : Progress site before start opened added s) (hstep : site.SearchStep s next) :
    ∃ opened added, Progress site before start opened added next := by
  cases hstep with
  | next => exact ⟨_, _, h.next⟩
  | skip hskip => exact ⟨_, _, h.skip hskip⟩
  | add hf hr => exact ⟨_, _, h.add hf hr⟩

theorem Progress.run {before start : List Source} {s last : Search}
    (h : ∃ opened added, Progress site before start opened added s)
    (hrun : Relation.ReflTransGen site.SearchStep s last) :
    ∃ opened added, Progress site before start opened added last := by
  induction hrun with
  | refl => exact h
  | tail _ hstep ih =>
    obtain ⟨opened, added, hprogress⟩ := ih
    exact hprogress.step hstep

/-- What is found for the sources `start`, which come after `before`: everything that they mention
or what is added for them, and nothing that is not mentioned. -/
theorem exists_discover_eq (before : List Source) {start result : List Source}
    (hd : Distinct (before ++ start)) (hj : site.Justified (before ++ start))
    (h : site.discover (before ++ start) start = .ok result) :
    ∃ added, result = before ++ start ++ added ∧ (∀ s ∈ added, s.kind = .referenced) ∧
      (∀ s ∈ start ++ added, ∀ name ∈ site.mentioned s, site.IsSettled result name) ∧
      Distinct result ∧ site.Justified result := by
  obtain ⟨last, hrun, hend⟩ := exists_run_discover site (before ++ start) start
  rw [h] at hend
  cases hend
  obtain ⟨opened, added, hprogress⟩ := Progress.run ⟨[], [], .init hd hj⟩ hrun
  refine ⟨added, hprogress.found_eq, hprogress.kind_eq, ?_, hprogress.distinct,
    hprogress.justified⟩
  intro s hs name hname
  have hopened : start ++ added = opened ++ [] := hprogress.opened_eq
  rw [hopened, List.append_nil] at hs
  exact (hprogress.settled s hs name hname).resolve_right (by simp)

end ComponentTags.Site
