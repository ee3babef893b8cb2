import Mathlib
import ComponentTags.Proofs.Engine.Keys

/-!
# The cache cannot be seen

As long as the files stay as they are and no name holds a comma, an engine answers as if it had just
been created, whatever it has been asked before: a kept unit is the one that its request would build
now, and debug mode builds it from the same components.
-/

namespace ComponentTags.Engine

/-- The request that an action makes has no name with a comma. -/
def Action.CommaFree (action : Action) : Prop :=
  ∀ r ∈ action.request?, r.CommaFree

/-- All actions find the same files. -/
def onFiles (files : FileSystem) (actions : List Action) : History :=
  actions.map (files, ·)

theorem exists_action_of_mem_requests {files found : FileSystem} {actions : List Action}
    {r : Request} (h : (found, r) ∈ requests (onFiles files actions)) :
    found = files ∧ ∃ action ∈ actions, action.request? = some r := by
  simp only [requests, onFiles, List.mem_filterMap, List.mem_map, Option.map_eq_some_iff] at h
  obtain ⟨step, ⟨action, haction, rfl⟩, made, hmade, heq⟩ := h
  cases heq
  exact ⟨rfl, action, haction, hmade⟩

/-! ## What does not depend on the cache -/

section Host

variable [TemplateLanguage]

/-- In debug mode the components are loaded again, but they are the same. -/
theorem compile_eq_of_loadedFrom {e : Engine} {files : FileSystem} (h : e.LoadedFrom files)
    (document : Document) :
    e.compile files document =
      CompiledUnit.compile e.environment e.components document := by
  cases hdebug : e.isDebug with
  | false => exact compile_of_not_debug hdebug files document
  | true =>
    have hload : Registry.load (e.site files) = .ok e.components := h
    simp only [compile, hdebug, if_true, hload, bind, Except.bind]

theorem compile_withCache {e : Engine} {files : FileSystem} (h : e.LoadedFrom files)
    (cache : Cache CompiledUnit) (debug : Bool) :
    ({ e with cache, isDebug := debug } : Engine).compile files = e.compile files := by
  have hloaded : ({ e with cache, isDebug := debug } : Engine).LoadedFrom files := h
  funext document
  rw [compile_eq_of_loadedFrom hloaded, compile_eq_of_loadedFrom h]
  rfl

theorem build_withCache {e : Engine} {files : FileSystem} (h : e.LoadedFrom files)
    (cache : Cache CompiledUnit) (debug : Bool) (r : Request) :
    ({ e with cache, isDebug := debug } : Engine).build files r = e.build files r := by
  have hcompile := compile_withCache h cache debug
  exact congrArg ((e.site files).assemble r.layout r.name r.extras >>= ·) hcompile

theorem renderText_fst (e : Engine) (files : FileSystem) (layout : Option Text) (source : Text)
    (data : Data) :
    (e.renderText files layout source data).1 =
      ((e.site files).assembleInline layout source >>= e.compile files).bind (·.render data) := by
  unfold renderText
  split <;> next h => rw [h]; rfl

/-! ## The answers of a run -/

/-- A unit that has been built stands for every later request of the same names. -/
theorem compiled_fst_after {files : FileSystem} {root : Text} {options : Options} {e : Engine}
    (h : Fresh files root options e) {actions : List Action}
    (hactions : ∀ action ∈ actions, action.CommaFree) {r : Request} (hr : r.CommaFree) :
    ((e.after (onFiles files actions)).compiled files r).1 = e.build files r := by
  obtain ⟨cache, debug, hafter, hunits⟩ := after_eq h.lookup?_eq_none (onFiles files actions)
  rw [hafter, compiled_fst, build_withCache h.loadedFrom]
  split
  · rfl
  · cases hkept : cache.lookup? r.key with
    | none => rfl
    | some unit =>
      obtain ⟨found, made, hmade, hkey, hbuild⟩ := hunits r.key unit hkept
      obtain ⟨rfl, action, haction, hrequest⟩ := exists_action_of_mem_requests hmade
      have hmadeFree : made.CommaFree := hactions action haction made hrequest
      obtain rfl : r = made := Request.eq_of_key_eq hr hmadeFree hkey
      have hsame := build_withCache h.loadedFrom e.cache false r
      exact hbuild.symm.trans hsame

/-- An engine answers every action like a fresh one, except whether a unit is kept. -/
theorem perform_eq_fresh {files : FileSystem} {root : Text} {options : Options} {e : Engine}
    (h : Fresh files root options e) (actions : List Action) (action : Action)
    (hfree : ∀ a ∈ action :: actions, a.CommaFree) (hkept : ∀ name, action ≠ .isKept name) :
    ((e.after (onFiles files actions)).perform files action).1 = (e.perform files action).1 := by
  have hactions : ∀ a ∈ actions, a.CommaFree := fun a ha => hfree a (List.mem_cons_of_mem _ ha)
  have hrender {r : Request} (hr : action.request? = some r) (data : Data) :
      ((e.after (onFiles files actions)).render files r data).1 = (e.render files r data).1 := by
    have hrFree : r.CommaFree := hfree action List.mem_cons_self r hr
    have hlater := compiled_fst_after h hactions hrFree
    have hfirst : ((e.after (onFiles files [])).compiled files r).1 = e.build files r :=
      compiled_fst_after h (List.forall_mem_nil _) hrFree
    have hfresh : e.after (onFiles files []) = e := rfl
    rw [hfresh] at hfirst
    rw [render_fst, render_fst, hlater, hfirst]
  obtain ⟨cache, debug, hafter, -⟩ := after_eq h.lookup?_eq_none (onFiles files actions)
  cases action with
  | render layout name data => exact congrArg Outcome.text (hrender rfl data)
  | renderFiles names data =>
    cases names with
    | nil => rfl
    | cons name extras => exact congrArg Outcome.text (hrender rfl data)
  | renderText layout source data =>
    have htext : ((e.after (onFiles files actions)).renderText files layout source data).1 =
        (e.renderText files layout source data).1 := by
      rw [renderText_fst, renderText_fst, hafter, compile_withCache h.loadedFrom]
      rfl
    exact congrArg Outcome.text htext
  | expandSource source =>
    rw [hafter]
    rfl
  | document name =>
    rw [hafter]
    rfl
  | isKept name => exact absurd rfl (hkept name)
  | clearCache => rfl
  | setDebug debug => rfl

end Host

def letterActions : List Action :=
  [.render none ['a'] (.map []), .setDebug true, .render (some ['b']) ['a'] (.map []),
    .setDebug false, .renderFiles [['a'], ['b']] (.map []), .render none [] (.map []),
    .isKept ['a'], .renderText none ['A'] (.map [])]

/-- The last action finds a kept unit. -/
theorem perform_eq_fresh_letterFiles :
    Fresh letterFiles ['/'] cardOptions letterEngine ∧
      (∀ a ∈ letterActions, a.CommaFree) ∧
      ((letterEngine.after (onFiles letterFiles letterActions)).perform letterFiles
        (.renderFiles [['a'], ['b']] (.map []))).1 = .text (.ok ['A']) := by
  have hfree : ∀ a ∈ .renderFiles [['a'], ['b']] (.map []) :: letterActions, a.CommaFree := by
    simp [letterActions, Action.CommaFree, Action.request?, Request.CommaFree, Request.names]
  refine ⟨fresh_letterEngine, fun a ha => hfree a (List.mem_cons_of_mem _ ha), ?_⟩
  rw [perform_eq_fresh fresh_letterEngine letterActions _ hfree (by simp)]
  have hunit : (letterEngine.compiled letterFiles pairRequest).1 = .ok pairUnit := by
    rw [compiled_fst, build_pairRequest]
    rfl
  exact congrArg Outcome.text (render_fst_of_compiled (by decide) hunit (by cbv))

end ComponentTags.Engine
