import Mathlib
import ComponentTags.Cache

/-!
# The history of a cache

A cache is used by one operation after another. A compilation reads the world around the cache and
may change it, so it can be seen whether it is run. What a cache answers is told by its history
alone: the unit for a key is the first one that was brought for it since the cache was cleared,
whether it was inserted or compiled. The counters tell how many lookups found a unit, how many found
none, and how many units were compiled.
-/

namespace ComponentTags.Cache

variable {σ α : Type}

/-! ## Compilations in a world -/

/-- A compilation reads the world around a cache and may change it. -/
abbrev Compilation (σ α : Type) := σ → Except Error α × σ

/-- The unit under a key, which is compiled in the world and stored if there is none. -/
def getOrCompileIn (cache : Cache α) (key : Key) (compile : Compilation σ α) (world : σ) :
    Except Error α × Cache α × σ :=
  match cache.get key with
  | (some unit, cache) => (.ok unit, cache, world)
  | (none, cache) =>
    match compile world with
    | (.error e, world) => (.error e, cache, world)
    | (.ok unit, world) =>
      let (stored, cache) := cache.recordCompile.insert key unit
      (.ok stored, cache, world)

/-- Only a compilation for a key without a unit is run, and then it is run once. -/
theorem getOrCompileIn_eq (cache : Cache α) (key : Key) (compile : Compilation σ α) (world : σ) :
    cache.getOrCompileIn key compile world =
      ((cache.getOrCompile key fun _ => (compile world).1).1,
        (cache.getOrCompile key fun _ => (compile world).1).2,
        if cache.contains key then world else (compile world).2) := by
  have hcontains : cache.contains key = (cache.get key).1.isSome := by rw [contains, get_fst]
  unfold getOrCompileIn getOrCompile
  split
  · next h => simp [hcontains, h]
  · next h =>
    rw [hcontains, h]
    rcases compile world with ⟨_ | _, _⟩ <;> rfl

/-! ## Operations -/

inductive Operation (σ α : Type) where
  | get (key : Key)
  | insert (key : Key) (unit : α)
  | getOrCompile (key : Key) (compile : Compilation σ α)
  | contains (key : Key)
  | containsName (name : Text)
  | recordCompile
  | clear

namespace Operation

/-- The cache and the world that an operation leaves behind. -/
def perform (cache : Cache α) (world : σ) : Operation σ α → Cache α × σ
  | .get key => ((cache.get key).2, world)
  | .insert key unit => ((cache.insert key unit).2, world)
  | .getOrCompile key compile => (cache.getOrCompileIn key compile world).2
  | .contains _ => (cache, world)
  | .containsName _ => (cache, world)
  | .recordCompile => (cache.recordCompile, world)
  | .clear => (cache.clear, world)

/-- The key that an operation looks up. -/
def lookedUp? : Operation σ α → Option Key
  | .get key => some key
  | .getOrCompile key _ => some key
  | _ => none

def clears : Operation σ α → Bool
  | .clear => true
  | _ => false

end Operation

/-- An operation together with the cache and the world that it meets. -/
structure Moment (σ α : Type) where
  cache : Cache α
  world : σ
  operation : Operation σ α

/-- The moments of a history, one for each operation. -/
def trace (cache : Cache α) (world : σ) : List (Operation σ α) → List (Moment σ α)
  | [] => []
  | operation :: rest =>
    ⟨cache, world, operation⟩ ::
      trace (operation.perform cache world).1 (operation.perform cache world).2 rest

/-- The cache and the world after a history. -/
def after (cache : Cache α) (world : σ) (operations : List (Operation σ α)) : Cache α × σ :=
  operations.foldl (fun state operation => operation.perform state.1 state.2) (cache, world)

theorem after_concat (cache : Cache α) (world : σ) (operations : List (Operation σ α))
    (operation : Operation σ α) :
    after cache world (operations ++ [operation]) =
      operation.perform (after cache world operations).1 (after cache world operations).2 := by
  simp only [after, List.foldl_append, List.foldl_cons, List.foldl_nil]

theorem trace_concat (cache : Cache α) (world : σ) (operations : List (Operation σ α))
    (operation : Operation σ α) :
    trace cache world (operations ++ [operation]) =
      trace cache world operations ++
        [⟨(after cache world operations).1, (after cache world operations).2, operation⟩] := by
  induction operations generalizing cache world with
  | nil => rfl
  | cons first rest ih =>
    rw [List.cons_append, trace, ih, trace, List.cons_append]
    rfl

namespace Moment

/-- A compilation that keeps its answer when it is run. -/
def observed (compile : Compilation σ α) : Compilation (σ × Option (Except Error α)) α :=
  fun state =>
    let (result, world) := compile state.1
    (result, world, some result)

/-- What the compilation of an operation answers, if it is run. -/
def compiled? (m : Moment σ α) : Option (Except Error α) :=
  match m.operation with
  | .getOrCompile key compile =>
    (m.cache.getOrCompileIn key (observed compile) (m.world, none)).2.2.2
  | _ => none

/-- The unit that an operation brings for a key: one that is inserted, or one that is compiled. -/
def brought? (m : Moment σ α) : Option (Key × α) :=
  match m.operation with
  | .insert key unit => some (key, unit)
  | .getOrCompile key _ => m.compiled?.bind fun result => result.toOption.map (key, ·)
  | _ => none

/-- Whether a unit is compiled by an operation or recorded by it. -/
def countsUnit (m : Moment σ α) : Bool :=
  match m.operation with
  | .getOrCompile .. => m.brought?.isSome
  | .recordCompile => true
  | _ => false

def next (m : Moment σ α) : Cache α :=
  (m.operation.perform m.cache m.world).1

theorem compiled?_getOrCompile (cache : Cache α) (world : σ) (key : Key)
    (compile : Compilation σ α) :
    (Moment.mk cache world (.getOrCompile key compile)).compiled? =
      if cache.contains key then none else some (compile world).1 := by
  change (cache.getOrCompileIn key (observed compile) (world, none)).2.2.2 = _
  rw [getOrCompileIn_eq]
  cases cache.contains key <;> rfl

theorem brought?_getOrCompile (cache : Cache α) (world : σ) (key : Key)
    (compile : Compilation σ α) :
    (Moment.mk cache world (.getOrCompile key compile)).brought? =
      if cache.contains key then none else (compile world).1.toOption.map (key, ·) := by
  simp only [brought?, compiled?_getOrCompile]
  cases cache.contains key <;> rfl

theorem next_getOrCompile (cache : Cache α) (world : σ) (key : Key) (compile : Compilation σ α) :
    (Moment.mk cache world (.getOrCompile key compile)).next =
      (cache.getOrCompile key fun _ => (compile world).1).2 := by
  change (cache.getOrCompileIn key compile world).2.1 = _
  rw [getOrCompileIn_eq]

/-- A unit that is there stays until the cache is cleared. -/
theorem lookup?_next (m : Moment σ α) (key : Key) :
    m.next.lookup? key =
      if m.operation.clears then none
      else (m.cache.lookup? key).or ((m.brought?.toList.find? (·.1 = key)).map Prod.snd) := by
  obtain ⟨cache, world, operation⟩ := m
  cases operation with
  | get other => simp [next, Operation.perform, Operation.clears, brought?]
  | insert other unit =>
    by_cases h : key = other
    · subst h
      cases hkey : cache.lookup? key <;>
        simp [next, Operation.perform, Operation.clears, brought?, lookup?_insert, hkey]
    · simp [next, Operation.perform, Operation.clears, brought?, lookup?_insert, h, Ne.symm h]
  | getOrCompile other compile =>
    rw [next_getOrCompile, lookup?_getOrCompile, brought?_getOrCompile, contains]
    by_cases h : key = other
    · subst h
      cases hkey : cache.lookup? key <;> cases hunit : (compile world).1.toOption <;>
        simp [Operation.clears]
    · cases (cache.lookup? other).isSome <;> cases hunit : (compile world).1.toOption <;>
        simp [Operation.clears, h, Ne.symm h]
  | contains other => simp [next, Operation.perform, Operation.clears, brought?]
  | containsName name => simp [next, Operation.perform, Operation.clears, brought?]
  | recordCompile => simp [next, Operation.perform, Operation.clears, brought?]
  | clear => simp [next, Operation.perform, Operation.clears]

/-- Each lookup is counted as a hit or a miss, and each unit that is compiled. -/
theorem counters_next (m : Moment σ α) :
    m.next.counters =
      { hits := m.cache.counters.hits + (m.operation.lookedUp?.any m.cache.contains).toNat
        misses := m.cache.counters.misses +
          (m.operation.lookedUp?.any (!m.cache.contains ·)).toNat
        compiles := m.cache.counters.compiles + m.countsUnit.toNat } := by
  obtain ⟨cache, world, operation⟩ := m
  cases operation with
  | get key => simp [next, Operation.perform, Operation.lookedUp?, countsUnit, counters_get]
  | getOrCompile key compile =>
    rw [next_getOrCompile, counters_getOrCompile]
    simp only [Operation.lookedUp?, countsUnit, brought?_getOrCompile, Option.any_some]
    cases cache.contains key <;> simp
  | recordCompile =>
    simp [next, Operation.perform, Operation.lookedUp?, countsUnit, Cache.recordCompile]
  | _ => simp [next, Operation.perform, Operation.lookedUp?, countsUnit, Cache.clear]

end Moment

/-! ## What a history tells -/

/-- The first unit that was brought for a key since the cache was cleared. -/
def first? (moments : List (Moment σ α)) (key : Key) : Option α :=
  (((moments.rtakeWhile (!·.operation.clears)).filterMap Moment.brought?).find? (·.1 = key)).map
    Prod.snd

theorem first?_concat (moments : List (Moment σ α)) (m : Moment σ α) (key : Key) :
    first? (moments ++ [m]) key =
      if m.operation.clears then none
      else (first? moments key).or ((m.brought?.toList.find? (·.1 = key)).map Prod.snd) := by
  rw [first?, List.rtakeWhile_concat]
  cases m.operation.clears with
  | true => rfl
  | false =>
    rw [Bool.not_false, if_pos rfl, List.filterMap_append, List.find?_append, Option.map_or]
    cases hbrought : m.brought? <;> simp [first?, hbrought]

/-- The moments after some earlier ones, each with all that are before it. -/
def withEarlier (earlier : List (Moment σ α)) :
    List (Moment σ α) → List (List (Moment σ α) × Moment σ α)
  | [] => []
  | m :: rest => (earlier, m) :: withEarlier (earlier ++ [m]) rest

theorem withEarlier_concat (earlier moments : List (Moment σ α)) (m : Moment σ α) :
    withEarlier earlier (moments ++ [m]) =
      withEarlier earlier moments ++ [(earlier ++ moments, m)] := by
  induction moments generalizing earlier with
  | nil => simp [withEarlier]
  | cons first rest ih => simp [withEarlier, ih]

theorem countP_concat {β : Type} (p : β → Bool) (l : List β) (b : β) :
    (l ++ [b]).countP p = l.countP p + (p b).toNat := by
  rw [List.countP_append, List.countP_singleton]
  cases p b <;> rfl

/-- How often a lookup met a key for which the test of the known unit is passed. -/
def countLookups (test : Option α → Bool) (moments : List (Moment σ α)) : Nat :=
  (withEarlier [] moments).countP fun m =>
    m.2.operation.lookedUp?.any fun key => test (first? m.1 key)

theorem countLookups_concat (test : Option α → Bool) (moments : List (Moment σ α))
    (m : Moment σ α) :
    countLookups test (moments ++ [m]) =
      countLookups test moments +
        (m.operation.lookedUp?.any fun key => test (first? moments key)).toNat := by
  rw [countLookups, withEarlier_concat, countP_concat, List.nil_append]
  rfl

theorem lookup?_after (world : σ) (operations : List (Operation σ α)) (key : Key) :
    (after {} world operations).1.lookup? key = first? (trace {} world operations) key := by
  induction operations using List.reverseRecOn with
  | nil => rfl
  | append_singleton operations operation ih =>
    rw [after_concat, trace_concat, first?_concat, ← ih]
    exact Moment.lookup?_next ⟨_, _, operation⟩ key

theorem counters_after (world : σ) (operations : List (Operation σ α)) :
    (after {} world operations).1.counters =
      { hits := countLookups Option.isSome (trace {} world operations)
        misses := countLookups Option.isNone (trace {} world operations)
        compiles := (trace {} world operations).countP Moment.countsUnit } := by
  induction operations using List.reverseRecOn with
  | nil => rfl
  | append_singleton operations operation ih =>
    have hknown : (after {} world operations).1.contains =
        fun key => (first? (trace {} world operations) key).isSome := by
      funext key
      rw [contains, lookup?_after]
    rw [after_concat, trace_concat, countLookups_concat, countLookups_concat, countP_concat]
    refine (Moment.counters_next ⟨_, _, operation⟩).trans ?_
    simp only [ih, hknown, Option.not_isSome]

theorem containsName_iff (cache : Cache α) (name : Text) :
    cache.containsName name ↔ ∃ layout, (cache.lookup? ⟨layout, name⟩).isSome := by
  simp only [containsName, lookup?, List.any_eq_true, decide_eq_true_eq, Option.isSome_map,
    List.find?_isSome]
  constructor
  · rintro ⟨⟨⟨layout, name⟩, unit⟩, hmem, rfl⟩
    exact ⟨layout, _, hmem, rfl⟩
  · rintro ⟨layout, entry, hmem, hkey⟩
    exact ⟨entry, hmem, by rw [hkey]⟩

/-- What a cache does for a key if its history tells which unit is known for it. -/
structure Serves (σ : Type) (cache : Cache α) (key : Key) (known : Option α) : Prop where
  get_eq : (cache.get key).1 = known
  contains_eq : cache.contains key = known.isSome
  insert_eq : ∀ unit, (cache.insert key unit).1 = known.getD unit
  getOrCompile_eq : ∀ compile : Unit → Except Error α,
    (cache.getOrCompile key compile).1 = (known.map .ok).getD (compile ())
  /-- A compilation is run where no unit is known. -/
  compiled?_eq : ∀ (compile : Compilation σ α) world,
    (Moment.mk cache world (.getOrCompile key compile)).compiled? =
      if known.isNone then some (compile world).1 else none
  getOrCompileIn_eq : ∀ (compile : Compilation σ α) world,
    cache.getOrCompileIn key compile world =
      ((cache.getOrCompile key fun _ => (compile world).1).1,
        (cache.getOrCompile key fun _ => (compile world).1).2,
        if known.isNone then (compile world).2 else world)
  /-- One that is run and fails is a miss and nothing else. -/
  failure : ∀ (compile : Unit → Except Error α) e, known = none → compile () = .error e →
    (cache.getOrCompile key compile).2 =
      { cache with counters := { cache.counters with misses := cache.counters.misses + 1 } }

theorem serves (σ : Type) (cache : Cache α) (key : Key) :
    Serves σ cache key (cache.lookup? key) where
  get_eq := get_fst cache key
  contains_eq := rfl
  insert_eq := insert_fst cache key
  getOrCompile_eq := getOrCompile_fst cache key
  compiled?_eq compile world := by
    rw [Moment.compiled?_getOrCompile, contains]
    cases cache.lookup? key <;> rfl
  getOrCompileIn_eq compile world := by
    rw [Cache.getOrCompileIn_eq, contains]
    cases cache.lookup? key <;> rfl
  failure compile e hknown hfailure := by
    have hnone : cache.contains key = false := by rw [contains, hknown, Option.isSome_none]
    rw [getOrCompile_of_not_contains hnone, hfailure]
    simp only [get, hknown]

/-- After any history a cache serves each key by the first unit that was brought for it since the
cache was cleared, and has counted each lookup and each unit that was compiled. Clearing keeps the
counters, and to ask whether a key or a name is there changes nothing. -/
theorem served_by_history (world : σ) (operations : List (Operation σ α)) :
    (∀ key, Serves σ (after {} world operations).1 key
      (first? (trace {} world operations) key)) ∧
    (∀ name, (after {} world operations).1.containsName name ↔
      ∃ layout, (first? (trace {} world operations) ⟨layout, name⟩).isSome) ∧
    (after {} world operations).1.counters =
      { hits := countLookups Option.isSome (trace {} world operations)
        misses := countLookups Option.isNone (trace {} world operations)
        compiles := (trace {} world operations).countP Moment.countsUnit } ∧
    (after {} world (operations ++ [.clear])).1 =
      { entries := [], counters := (after {} world operations).1.counters } ∧
    (∀ key, after {} world (operations ++ [.contains key]) = after {} world operations) ∧
    ∀ name, after {} world (operations ++ [.containsName name]) = after {} world operations := by
  refine ⟨fun key => ?_, fun name => ?_, counters_after world operations, ?_, fun key => ?_,
    fun name => ?_⟩
  · rw [← lookup?_after]
    exact serves σ _ key
  · simp only [containsName_iff, lookup?_after]
  · rw [after_concat]
    rfl
  · rw [after_concat]
    rfl
  · rw [after_concat]
    rfl

/-- A name without a layout and with one. The world counts the compilations that are run. -/
def mixedOperations : List (Operation Nat Nat) :=
  [.get ⟨none, ['p']⟩, .insert ⟨none, ['p']⟩ 1, .insert ⟨none, ['p']⟩ 2,
    .getOrCompile ⟨none, ['p']⟩ fun runs => (.ok 3, runs + 1),
    .getOrCompile ⟨some ['b'], ['p']⟩ fun runs => (.error .noTemplates, runs + 1),
    .getOrCompile ⟨some ['b'], ['p']⟩ fun runs => (.ok 4, runs + 1)]

theorem served_by_history_mixedOperations :
    (after {} 0 mixedOperations).2 = 2 ∧
      ((after {} 0 mixedOperations).1.get ⟨none, ['p']⟩).1 = some 1 ∧
      ((after {} 0 mixedOperations).1.get ⟨some ['b'], ['p']⟩).1 = some 4 ∧
      (after {} 0 mixedOperations).1.counters = { hits := 1, misses := 3, compiles := 1 } := by
  obtain ⟨hserves, -, hcounters, -⟩ := served_by_history 0 mixedOperations
  exact ⟨by decide, (hserves _).get_eq.trans (by decide), (hserves _).get_eq.trans (by decide),
    hcounters.trans (by decide)⟩

end ComponentTags.Cache
