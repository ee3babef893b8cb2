import Mathlib
import ComponentTags.Proofs.Engine.Identifiers

/-!
# Runs of an engine

An engine is asked one thing after another, and the files may change in between. Whatever it is
asked, only its cache and its debug mode change. A unit in the cache was built for some request that
has been made before, from the files as they were then.
-/

namespace ComponentTags.Engine

/-- What an engine can be asked. -/
inductive Action where
  | render (layout : Option Text) (name : Text) (data : Data)
  | renderFiles (names : List Text) (data : Data)
  | renderText (layout : Option Text) (source : Text) (data : Data)
  | expandSource (source : Text)
  | document (name : Text)
  /-- Whether a unit of a name is kept. -/
  | isKept (name : Text)
  | clearCache
  | setDebug (debug : Bool)

inductive Outcome where
  | text (result : Except Error Text)
  | document (result : Except Error Document)
  | answer (yes : Bool)
  | done

/-- What each action finds in the files, in the order of the actions. -/
abbrev History := List (FileSystem × Action)

/-- The request that an action makes of the cache. -/
def Action.request? : Action → Option Request
  | .render layout name _ => some { layout, name }
  | .renderFiles (name :: extras) _ => some { name, extras }
  | _ => none

/-- The requests made in the course of a history, each with the files it finds. -/
def requests (history : History) : List (FileSystem × Request) :=
  history.filterMap fun step => step.2.request?.map (step.1, ·)

theorem requests_concat (history : History) (files : FileSystem) (action : Action) :
    requests (history ++ [(files, action)]) =
      requests history ++ (action.request?.map (files, ·)).toList := by
  cases h : action.request? <;> simp [requests, h]

variable [TemplateLanguage]

def perform (e : Engine) (files : FileSystem) : Action → Outcome × Engine
  | .render layout name data =>
    let (result, e) := e.render files { layout, name } data
    (.text result, e)
  | .renderFiles names data =>
    let (result, e) := e.renderFiles files names data
    (.text result, e)
  | .renderText layout source data =>
    let (result, e) := e.renderText files layout source data
    (.text result, e)
  | .expandSource source => (.text (e.expandSource source), e)
  | .document name => (.document (e.document files name), e)
  | .isKept name => (.answer (e.exists? name), e)
  | .clearCache => (.done, e.clearCache)
  | .setDebug debug => (.answer debug, e.setDebug debug)

def after (e : Engine) (history : History) : Engine :=
  history.foldl (fun e step => (e.perform step.1 step.2).2) e

theorem after_concat (e : Engine) (history : History) (files : FileSystem) (action : Action) :
    e.after (history ++ [(files, action)]) = ((e.after history).perform files action).2 := by
  simp only [after, List.foldl_append, List.foldl_cons, List.foldl_nil]

/-- An engine as it is created for some files, with what is done to environments. -/
def Fresh (files : FileSystem) (root : Text) (options : Options) (e : Engine) : Prop :=
  ∃ created setup, create files root options = .ok created ∧ e = { created with setup }

theorem Fresh.cache_eq {files : FileSystem} {root : Text} {options : Options} {e : Engine}
    (h : Fresh files root options e) : e.cache = {} := by
  obtain ⟨created, setup, hcreate, rfl⟩ := h
  simp only [create, bind, Except.bind] at hcreate
  split at hcreate
  · cases hcreate
  · cases hcreate
    rfl

theorem Fresh.lookup?_eq_none {files : FileSystem} {root : Text} {options : Options} {e : Engine}
    (h : Fresh files root options e) (key : Cache.Key) : e.cache.lookup? key = none := by
  rw [h.cache_eq]
  rfl

theorem Fresh.loadedFrom {files : FileSystem} {root : Text} {options : Options} {e : Engine}
    (h : Fresh files root options e) : e.LoadedFrom files := by
  obtain ⟨created, setup, hcreate, rfl⟩ := h
  have hloaded := loadedFrom_of_create hcreate
  exact hloaded

/-! ## What an action does to an engine -/

theorem render_fst (e : Engine) (files : FileSystem) (r : Request) (data : Data) :
    (e.render files r data).1 =
      if (Text.trim r.name).isEmpty then .error .noTemplates
      else (e.compiled files r).1.bind (·.render data) := by
  unfold render
  split <;> rfl

theorem render_fst_of_compiled {e : Engine} {files : FileSystem} {r : Request} {data : Data}
    {unit : CompiledUnit} {text : Text} (hname : (Text.trim r.name).isEmpty = false)
    (hunit : (e.compiled files r).1 = .ok unit) (htext : unit.render data = .ok text) :
    (e.render files r data).1 = .ok text := by
  rw [render_fst, hname, hunit]
  exact htext

/-- A kept unit counts before one that would be built, except in debug mode. -/
theorem compiled_fst (e : Engine) (files : FileSystem) (r : Request) :
    (e.compiled files r).1 =
      if e.isDebug then e.build files r
      else ((e.cache.lookup? r.key).map .ok).getD (e.build files r) := by
  unfold compiled
  split
  · cases e.build files r <;> rfl
  · exact Cache.getOrCompile_fst e.cache r.key fun _ => e.build files r

/-- Out of debug mode the unit of a request is kept unless there is one. -/
theorem lookup?_compiled (e : Engine) (files : FileSystem) (r : Request) (key : Cache.Key) :
    (e.compiled files r).2.cache.lookup? key =
      (e.cache.lookup? key).or
        (if e.isDebug = false ∧ key = r.key then (e.build files r).toOption else none) := by
  unfold compiled
  cases hdebug : e.isDebug with
  | true => cases e.build files r <;> simp
  | false => simpa using Cache.lookup?_getOrCompile e.cache r.key key fun _ => e.build files r

theorem compiled_snd (e : Engine) (files : FileSystem) (r : Request) :
    ∃ cache, (e.compiled files r).2 = { e with cache } ∧
      ∀ key unit, cache.lookup? key = some unit → e.cache.lookup? key = some unit ∨
        e.isDebug = false ∧ key = r.key ∧ e.build files r = .ok unit := by
  have hcache : ∃ cache, (e.compiled files r).2 = { e with cache } := by
    unfold compiled
    split
    · cases e.build files r with
      | error error => exact ⟨e.cache, rfl⟩
      | ok unit => exact ⟨e.cache.recordCompile, rfl⟩
    · exact ⟨_, rfl⟩
  obtain ⟨cache, hcache⟩ := hcache
  refine ⟨cache, hcache, ?_⟩
  intro key unit h
  have hlookup := e.lookup?_compiled files r key
  rw [hcache] at hlookup
  rw [hlookup, Option.or_eq_some_iff] at h
  rcases h with h | ⟨-, h⟩
  · exact .inl h
  · split at h
    · next hkey =>
      refine .inr ⟨hkey.1, hkey.2, ?_⟩
      cases hb : e.build files r with
      | error error => simp [hb, Except.toOption] at h
      | ok built => simpa [hb, Except.toOption] using h
    · cases h

theorem render_snd (e : Engine) (files : FileSystem) (r : Request) (data : Data) :
    ∃ cache, (e.render files r data).2 = { e with cache } ∧
      ∀ key unit, cache.lookup? key = some unit → e.cache.lookup? key = some unit ∨
        e.isDebug = false ∧ key = r.key ∧ e.build files r = .ok unit := by
  unfold render
  split
  · exact ⟨e.cache, rfl, fun key unit h => .inl h⟩
  · exact e.compiled_snd files r

/-- An action changes the cache and the debug mode at most. Each unit in the cache was there before
or has just been built for the request that the action makes. -/
theorem perform_snd (e : Engine) (files : FileSystem) (action : Action) :
    ∃ cache debug, (e.perform files action).2 = { e with cache, isDebug := debug } ∧
      ∀ key unit, cache.lookup? key = some unit → e.cache.lookup? key = some unit ∨
        e.isDebug = false ∧ ∃ r, action.request? = some r ∧ key = r.key ∧
          e.build files r = .ok unit := by
  have hrender {r : Request} (hr : action.request? = some r) (data : Data) :
      ∃ cache debug, (e.render files r data).2 = { e with cache, isDebug := debug } ∧
        ∀ key unit, cache.lookup? key = some unit → e.cache.lookup? key = some unit ∨
          e.isDebug = false ∧ ∃ r, action.request? = some r ∧ key = r.key ∧
            e.build files r = .ok unit := by
    obtain ⟨cache, hsnd, hunits⟩ := e.render_snd files r data
    refine ⟨cache, e.isDebug, hsnd, ?_⟩
    intro key unit h
    rcases hunits key unit h with h | ⟨hdebug, hkey, hbuild⟩
    · exact .inl h
    · exact .inr ⟨hdebug, r, hr, hkey, hbuild⟩
  cases action with
  | render layout name data => exact hrender rfl data
  | renderFiles names data =>
    cases names with
    | nil => exact ⟨e.cache, e.isDebug, rfl, fun key unit h => .inl h⟩
    | cons name extras => exact hrender rfl data
  | renderText layout source data =>
    unfold perform renderText
    dsimp only
    split
    · exact ⟨e.cache, e.isDebug, rfl, fun key unit h => .inl h⟩
    · exact ⟨e.cache.recordCompile, e.isDebug, rfl, fun key unit h => .inl h⟩
  | expandSource source => exact ⟨e.cache, e.isDebug, rfl, fun key unit h => .inl h⟩
  | document name => exact ⟨e.cache, e.isDebug, rfl, fun key unit h => .inl h⟩
  | isKept name => exact ⟨e.cache, e.isDebug, rfl, fun key unit h => .inl h⟩
  | clearCache => exact ⟨e.cache.clear, e.isDebug, rfl, by simp⟩
  | setDebug debug => exact ⟨e.cache, debug, rfl, fun key unit h => .inl h⟩

/-! ## What a history does to an engine -/

/-- What the cache holds has no part in building a unit. -/
theorem build_of_not_debug (e : Engine) (cache : Cache CompiledUnit) {debug : Bool}
    (h : debug = false) (files : FileSystem) (r : Request) :
    ({ e with cache, isDebug := debug } : Engine).build files r =
      (e.setDebug false).build files r := by
  subst h
  rfl

/-- Each kept unit was built for a request that has been made, out of debug mode. -/
theorem after_eq {e : Engine} (h : ∀ key, e.cache.lookup? key = none) (history : History) :
    ∃ cache debug, e.after history = { e with cache, isDebug := debug } ∧
      ∀ key unit, cache.lookup? key = some unit →
        ∃ files r, (files, r) ∈ requests history ∧ key = r.key ∧
          (e.setDebug false).build files r = .ok unit := by
  induction history using List.reverseRecOn with
  | nil => exact ⟨e.cache, e.isDebug, rfl, fun key unit hunit => by simp [h] at hunit⟩
  | append_singleton history step ih =>
    obtain ⟨files, action⟩ := step
    obtain ⟨cache, debug, hafter, hunits⟩ := ih
    obtain ⟨cache', debug', hperform, hstep⟩ := (e.after history).perform_snd files action
    rw [after_concat]
    rw [hafter] at hperform hstep ⊢
    refine ⟨cache', debug', hperform, ?_⟩
    intro key unit hunit
    rw [requests_concat]
    rcases hstep key unit hunit with hunit | ⟨hdebug, r, hr, hkey, hbuild⟩
    · obtain ⟨files', r, hmem, hr⟩ := hunits key unit hunit
      exact ⟨files', r, List.mem_append_left _ hmem, hr⟩
    · refine ⟨files, r, by simp [hr], hkey, ?_⟩
      rwa [← build_of_not_debug e cache hdebug]

/-- A unit that is handed out was built for this request or for one of its key that was made
before. -/
theorem exists_request_of_compiled {e : Engine} (h : ∀ key, e.cache.lookup? key = none)
    (history : History) (files : FileSystem) (r : Request) {unit : CompiledUnit}
    (hunit : ((e.after history).compiled files r).1 = .ok unit) :
    ∃ found made, (found, made) ∈ (files, r) :: requests history ∧ made.key = r.key ∧
      ∃ debug, (e.setDebug debug).build found made = .ok unit := by
  obtain ⟨cache, debug, hafter, hunits⟩ := after_eq h history
  rw [hafter, compiled_fst] at hunit
  split at hunit
  · exact ⟨files, r, List.mem_cons_self, rfl, debug, hunit⟩
  · dsimp only at hunit
    cases hkept : cache.lookup? r.key with
    | none =>
      rw [hkept] at hunit
      exact ⟨files, r, List.mem_cons_self, rfl, debug, hunit⟩
    | some kept =>
      rw [hkept] at hunit
      cases hunit
      obtain ⟨found, made, hmade, hkey, hbuild⟩ := hunits r.key unit hkept
      exact ⟨found, made, List.mem_cons_of_mem _ hmade, hkey.symm, false, hbuild⟩

end ComponentTags.Engine
