import Mathlib
import ComponentTags.Proofs.Engine.Transparency

/-!
# Counters of a run

A lookup of the cache is counted once, as a hit or a miss, and a unit once it is built, whether it
is rendered or not. In debug mode nothing is looked up and nothing is stored, so what the cache
holds is what was built out of debug mode since it was cleared, the first unit for each key.
-/

namespace ComponentTags.Engine

def Action.clears : Action → Bool
  | .clearCache => true
  | _ => false

section Host

variable [TemplateLanguage]

/-- An action together with the engine and the files that it meets. -/
structure Moment where
  engine : Engine
  files : FileSystem
  action : Action

/-- The moments of a history, one for each action. -/
def trace (e : Engine) : History → List Moment
  | [] => []
  | (files, action) :: rest => ⟨e, files, action⟩ :: (e.perform files action).2.trace rest

theorem trace_concat (e : Engine) (history : History) (files : FileSystem) (action : Action) :
    e.trace (history ++ [(files, action)]) =
      e.trace history ++ [⟨e.after history, files, action⟩] := by
  induction history generalizing e with
  | nil => rfl
  | cons step rest ih =>
    rw [List.cons_append, trace, ih, trace, List.cons_append]
    rfl

namespace Moment

/-- The engine that the action leaves behind. -/
def next (m : Moment) : Engine :=
  (m.engine.perform m.files m.action).2

/-- The request that the action makes, unless its name is blank. -/
def request? (m : Moment) : Option Request :=
  m.action.request?.filter fun r => !(Text.trim r.name).isEmpty

/-- Whether the action looks a key up: it makes a request, and the engine is not in debug mode. -/
def looksUp (m : Moment) : Bool :=
  !m.engine.isDebug && m.request?.isSome

/-- Whether the action is served by a unit that is kept. -/
def isServed (m : Moment) : Bool :=
  !m.engine.isDebug && m.request?.any (m.engine.cache.contains ·.key)

/-- The unit that the engine builds for the action: for the source that it is given, or for a
request that is not served. -/
def built? (m : Moment) : Option CompiledUnit :=
  match m.action with
  | .renderText layout source _ =>
    ((m.engine.site m.files).assembleInline layout source >>= m.engine.compile m.files).toOption
  | _ =>
    m.request?.bind fun r => if m.isServed then none else (m.engine.build m.files r).toOption

/-- The unit that is built for a key of the cache. -/
def stored? (m : Moment) : Option (Cache.Key × CompiledUnit) :=
  if m.engine.isDebug then none
  else m.request?.bind fun r => m.built?.map (r.key, ·)

end Moment

/-! ## What a moment does to the cache -/

theorem compiled_cache (e : Engine) (files : FileSystem) (r : Request) :
    (e.compiled files r).2.cache.counters =
        { hits := e.cache.counters.hits + (!e.isDebug && e.cache.contains r.key).toNat
          misses := e.cache.counters.misses + (!e.isDebug && !e.cache.contains r.key).toNat
          compiles := e.cache.counters.compiles +
            (!(!e.isDebug && e.cache.contains r.key) &&
              (e.build files r).toOption.isSome).toNat } ∧
      (e.compiled files r).2.cache.entries =
        e.cache.entries ++
          if e.isDebug || e.cache.contains r.key then []
          else ((e.build files r).toOption.map (r.key, ·)).toList := by
  unfold compiled
  cases hdebug : e.isDebug with
  | true => cases e.build files r <;> simp [Except.toOption, Cache.recordCompile]
  | false =>
    constructor
    · simpa using Cache.counters_getOrCompile e.cache r.key fun _ => e.build files r
    · simpa using Cache.entries_getOrCompile e.cache r.key fun _ => e.build files r

theorem render_snd_cache (e : Engine) (files : FileSystem) (r : Request) (data : Data) :
    (e.render files r data).2.cache =
      if (Text.trim r.name).isEmpty then e.cache else (e.compiled files r).2.cache := by
  unfold render
  split <;> rfl

namespace Moment

/-- What a moment counts, and what it adds to the cache. -/
structure Counts (m : Moment) : Prop where
  counters_eq : m.next.cache.counters =
    { hits := m.engine.cache.counters.hits + m.isServed.toNat
      misses := m.engine.cache.counters.misses + (m.looksUp && !m.isServed).toNat
      compiles := m.engine.cache.counters.compiles + m.built?.isSome.toNat }
  entries_eq : m.next.cache.entries =
    if m.action.clears then [] else m.engine.cache.entries ++ m.stored?.toList

theorem built?_of_request {m : Moment} {r : Request} (h : m.action.request? = some r) :
    m.built? =
      m.request?.bind fun r =>
        if m.isServed then none else (m.engine.build m.files r).toOption := by
  unfold built?
  split
  · next haction => simp [haction, Action.request?] at h
  · rfl

/-- An action that makes a request and renders it. -/
theorem counts_of_request {m : Moment} {r : Request} {data : Data}
    (hrequest : m.action.request? = some r) (hnext : m.next = (m.engine.render m.files r data).2) :
    m.Counts := by
  have hclears : m.action.clears = false := by
    cases haction : m.action with
    | clearCache => simp [haction, Action.request?] at hrequest
    | _ => rfl
  have hcache := m.engine.render_snd_cache m.files r data
  rw [← hnext] at hcache
  cases hblank : (Text.trim r.name).isEmpty with
  | true =>
    have hnone : m.request? = none := by
      rw [request?, hrequest, Option.filter_some, hblank]
      rfl
    rw [if_pos hblank] at hcache
    constructor
    · simp [hcache, looksUp, isServed, built?_of_request hrequest, hnone]
    · simp [hcache, hclears, stored?, hnone]
  | false =>
    have hsome : m.request? = some r := by
      rw [request?, hrequest, Option.filter_some, hblank]
      rfl
    obtain ⟨hcounters, hentries⟩ := m.engine.compiled_cache m.files r
    rw [if_neg (by simp [hblank])] at hcache
    rw [← hcache] at hcounters hentries
    constructor
    · rw [hcounters]
      simp only [looksUp, isServed, built?_of_request hrequest, hsome, Option.any_some,
        Option.isSome_some, Option.bind_some]
      cases m.engine.isDebug <;> cases m.engine.cache.contains r.key <;> simp
    · rw [hentries]
      simp only [hclears, stored?, isServed, built?_of_request hrequest, hsome, Option.any_some,
        Option.bind_some]
      cases m.engine.isDebug <;> cases m.engine.cache.contains r.key <;> simp

/-- An action that neither makes a request nor builds a unit. -/
theorem counts_of_idle {m : Moment} (hrequest : m.action.request? = none)
    (hbuilt : m.built? = none) (hcounters : m.next.cache.counters = m.engine.cache.counters)
    (hentries : m.next.cache.entries = if m.action.clears then [] else m.engine.cache.entries) :
    m.Counts := by
  have hnone : m.request? = none := by rw [request?, hrequest, Option.filter_none]
  constructor
  · simp [hcounters, looksUp, isServed, hnone, hbuilt]
  · simp [hentries, stored?, hnone]

theorem counts_of_renderText {m : Moment} {layout : Option Text} {source : Text} {data : Data}
    (haction : m.action = .renderText layout source data) : m.Counts := by
  have hnone : m.request? = none := by rw [request?, haction]; rfl
  have hnext : m.next = (m.engine.renderText m.files layout source data).2 := by
    rw [next, haction]
    rfl
  have hbuilt : m.built? = ((m.engine.site m.files).assembleInline layout source >>=
      m.engine.compile m.files).toOption := by
    rw [built?, haction]
  rw [renderText] at hnext
  have hclears : m.action.clears = false := by rw [haction]; rfl
  split at hnext
  · next h =>
    rw [h] at hbuilt
    constructor
    · simp [hnext, looksUp, isServed, hnone, hbuilt, Except.toOption]
    · simp [hnext, hclears, stored?, hnone]
  · next h =>
    rw [h] at hbuilt
    constructor
    · simp [hnext, looksUp, isServed, hnone, hbuilt, Except.toOption, Cache.recordCompile]
    · simp [hnext, hclears, stored?, hnone]

theorem counts (m : Moment) : m.Counts := by
  obtain ⟨e, files, action⟩ := m
  cases action with
  | render layout name data => exact counts_of_request rfl rfl
  | renderFiles names data =>
    cases names with
    | nil => exact counts_of_idle rfl rfl rfl rfl
    | cons name extras => exact counts_of_request rfl rfl
  | renderText layout source data => exact counts_of_renderText rfl
  | expandSource source => exact counts_of_idle rfl rfl rfl rfl
  | document name => exact counts_of_idle rfl rfl rfl rfl
  | isKept name => exact counts_of_idle rfl rfl rfl rfl
  | clearCache => exact counts_of_idle rfl rfl rfl rfl
  | setDebug debug => exact counts_of_idle rfl rfl rfl rfl

theorem toNat_looksUp (m : Moment) :
    m.isServed.toNat + (m.looksUp && !m.isServed).toNat = m.looksUp.toNat := by
  unfold isServed looksUp
  cases m.engine.isDebug with
  | true => rfl
  | false =>
    cases m.request? with
    | none => rfl
    | some r => cases h : m.engine.cache.contains r.key <;> simp [h]

/-- In debug mode nothing is counted but compilations, and only clearing changes what is kept. -/
theorem of_isDebug {m : Moment} (h : m.engine.isDebug) :
    m.next.counters.hits = m.engine.counters.hits ∧
      m.next.counters.misses = m.engine.counters.misses ∧
      m.next.cache.entries = if m.action.clears then [] else m.engine.cache.entries := by
  obtain ⟨hcounters, hentries⟩ := m.counts
  simp only [Engine.counters, hcounters, hentries]
  simp [isServed, looksUp, stored?, h]

end Moment

/-! ## What a run does to the cache -/

/-- The units that were built for keys since the cache was cleared, in the order of the moments. -/
def keptUnits (moments : List Moment) : List (Cache.Key × CompiledUnit) :=
  (moments.rtakeWhile (!·.action.clears)).filterMap Moment.stored?

theorem keptUnits_concat (moments : List Moment) (m : Moment) :
    keptUnits (moments ++ [m]) =
      if m.action.clears then [] else keptUnits moments ++ m.stored?.toList := by
  rw [keptUnits, List.rtakeWhile_concat]
  cases m.action.clears with
  | true => rfl
  | false =>
    rw [Bool.not_false, if_pos rfl, List.filterMap_append]
    cases hstored : m.stored? <;> simp [keptUnits, hstored]

theorem counters_after (e : Engine) (history : History) :
    (e.after history).counters.hits + (e.after history).counters.misses =
        e.counters.hits + e.counters.misses + (e.trace history).countP Moment.looksUp ∧
      (e.after history).counters.compiles =
        e.counters.compiles + ((e.trace history).filterMap Moment.built?).length := by
  induction history using List.reverseRecOn with
  | nil => exact ⟨rfl, rfl⟩
  | append_singleton history step ih =>
    obtain ⟨files, action⟩ := step
    obtain ⟨hlookups, hcompiles⟩ := ih
    let m : Moment := ⟨e.after history, files, action⟩
    have hcounters : (e.after (history ++ [(files, action)])).counters =
        { hits := (e.after history).counters.hits + m.isServed.toNat
          misses := (e.after history).counters.misses + (m.looksUp && !m.isServed).toNat
          compiles := (e.after history).counters.compiles + m.built?.isSome.toNat } :=
      (congrArg counters (e.after_concat history files action)).trans m.counts.counters_eq
    have htrace : e.trace (history ++ [(files, action)]) = e.trace history ++ [m] :=
      e.trace_concat history files action
    rw [hcounters, htrace]
    constructor
    · have hcount : [m].countP Moment.looksUp = m.looksUp.toNat := by
        cases hlooks : m.looksUp <;> simp [hlooks]
      rw [List.countP_append, hcount, ← m.toNat_looksUp]
      dsimp only
      omega
    · have hlength : ([m].filterMap Moment.built?).length = m.built?.isSome.toNat := by
        cases hbuilt : m.built? <;> simp [hbuilt]
      rw [List.filterMap_append, List.length_append, hlength, ← Nat.add_assoc, ← hcompiles]

theorem entries_after {e : Engine} (h : e.cache.entries = []) (history : History) :
    (e.after history).cache.entries = keptUnits (e.trace history) := by
  induction history using List.reverseRecOn with
  | nil => exact h
  | append_singleton history step ih =>
    obtain ⟨files, action⟩ := step
    have hentries := (⟨e.after history, files, action⟩ : Moment).counts.entries_eq
    rw [after_concat, trace_concat, keptUnits_concat, ← ih]
    exact hentries

/-- However a fresh engine is used, its counters tell of each lookup and of each unit that was
built. In debug mode it counts no lookup and changes what is kept only if it is told to clear it.
Out of debug mode it serves the first unit that was built for a key since then, whatever the files
are. -/
theorem counters_and_kept {files : FileSystem} {root : Text} {options : Options} {e : Engine}
    (h : Fresh files root options e) (history : History) :
    (e.after history).counters.hits + (e.after history).counters.misses =
        (e.trace history).countP (fun m => !m.engine.isDebug &&
          m.action.request?.any fun r => !(Text.trim r.name).isEmpty) ∧
      (e.after history).counters.compiles =
        ((e.trace history).filterMap Moment.built?).length ∧
      (∀ m ∈ e.trace history, m.engine.isDebug →
        m.next.counters.hits = m.engine.counters.hits ∧
          m.next.counters.misses = m.engine.counters.misses ∧
          m.next.cache.entries = if m.action.clears then [] else m.engine.cache.entries) ∧
      ((e.after history).isDebug = false → ∀ found r unit,
        (keptUnits (e.trace history)).find? (·.1 = r.key) = some (r.key, unit) →
          ((e.after history).compiled found r).1 = .ok unit) := by
  obtain ⟨hlookups, hcompiles⟩ := counters_after e history
  have hempty : e.cache = {} := h.cache_eq
  simp only [counters, hempty, Nat.zero_add] at hlookups hcompiles
  refine ⟨?_, hcompiles, fun m _ hdebug => m.of_isDebug hdebug, ?_⟩
  · refine hlookups.trans (List.countP_congr fun m _ => ?_)
    simp [Moment.looksUp, Moment.request?, Option.isSome_filter]
  · intro hdebug found r unit hkept
    have hentries : (e.after history).cache.entries = keptUnits (e.trace history) :=
      entries_after (by rw [hempty]) history
    have hlookup : (e.after history).cache.lookup? r.key = some unit := by
      rw [Cache.lookup?, hentries, hkept]
      rfl
    rw [compiled_fst, hdebug, hlookup]
    rfl

end Host

/-- A unit is built, and the files are deleted before it is asked for again in debug mode. -/
def deletionHistory : History :=
  [(letterFiles, .renderFiles [['a'], ['b']] (.map [])), (letterFiles, .setDebug true),
    ({ top := .folder [] }, .renderFiles [['a'], ['b']] (.map [])),
    ({ top := .folder [] }, .setDebug false)]

theorem counters_and_kept_deletionHistory :
    Fresh letterFiles ['/'] cardOptions letterEngine ∧
      (letterEngine.after deletionHistory).counters.hits +
        (letterEngine.after deletionHistory).counters.misses = 1 ∧
      (letterEngine.after deletionHistory).counters.compiles = 1 ∧
      ((letterEngine.after deletionHistory).compiled { top := .folder [] } pairRequest).1 =
        .ok pairUnit := by
  obtain ⟨hlookups, hcompiles, -, hkept⟩ := counters_and_kept fresh_letterEngine deletionHistory
  have hfirst : Moment.built? ⟨letterEngine, letterFiles, .renderFiles [['a'], ['b']] (.map [])⟩ =
      some pairUnit := congrArg Except.toOption build_pairRequest
  refine ⟨fresh_letterEngine, hlookups.trans rfl, hcompiles.trans ?_, hkept rfl _ _ _ ?_⟩
  · rw [deletionHistory, trace, List.filterMap_cons, hfirst]
    rfl
  · have hcleared : keptUnits (letterEngine.trace deletionHistory) =
        (letterEngine.trace deletionHistory).filterMap Moment.stored? := rfl
    rw [hcleared, deletionHistory, trace, List.filterMap_cons, Moment.stored?, hfirst]
    rfl

end ComponentTags.Engine
