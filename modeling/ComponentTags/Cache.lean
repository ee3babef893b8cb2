import ComponentTags.Error

/-!
# Cache

Units by the layout and the name they were asked for. The first unit stored under a key stays until
the cache is cleared. Counters tell how often a unit was found, missed and compiled.
-/

namespace ComponentTags

namespace Cache

structure Key where
  layout : Option Text
  name : Text
deriving DecidableEq, Repr

def Key.describe (key : Key) : Text :=
  match key.layout with
  | none => key.name
  | some layout => layout ++ ':' :: key.name

structure Counters where
  hits : Nat := 0
  misses : Nat := 0
  compiles : Nat := 0
deriving DecidableEq, Repr

end Cache

structure Cache (α : Type) where
  /-- Each key stands here once. -/
  entries : List (Cache.Key × α) := []
  counters : Cache.Counters := {}

namespace Cache

variable {α : Type}

/-- The unit under a key. -/
def lookup? (cache : Cache α) (key : Key) : Option α :=
  (cache.entries.find? (·.1 = key)).map Prod.snd

def contains (cache : Cache α) (key : Key) : Bool :=
  (cache.lookup? key).isSome

/-- Whether there is a unit of this name, with any layout or none. -/
def containsName (cache : Cache α) (name : Text) : Bool :=
  cache.entries.any (·.1.name = name)

def size (cache : Cache α) : Nat :=
  cache.entries.length

def clear (cache : Cache α) : Cache α :=
  { cache with entries := [] }

def recordCompile (cache : Cache α) : Cache α :=
  { cache with counters := { cache.counters with compiles := cache.counters.compiles + 1 } }

/-- Looks a key up and counts a hit or a miss. -/
def get (cache : Cache α) (key : Key) : Option α × Cache α :=
  let counters := cache.counters
  match cache.lookup? key with
  | some unit => (some unit, { cache with counters := { counters with hits := counters.hits + 1 } })
  | none => (none, { cache with counters := { counters with misses := counters.misses + 1 } })

/-- Stores a unit unless there is one. Returns the unit that is stored then. -/
def insert (cache : Cache α) (key : Key) (unit : α) : α × Cache α :=
  match cache.lookup? key with
  | some stored => (stored, cache)
  | none => (unit, { cache with entries := cache.entries ++ [(key, unit)] })

/-- The unit under a key, which is compiled and stored if there is none. A failure stores
nothing. -/
def getOrCompile (cache : Cache α) (key : Key) (compile : Unit → Except Error α) :
    Except Error α × Cache α :=
  match cache.get key with
  | (some unit, cache) => (.ok unit, cache)
  | (none, cache) =>
    match compile () with
    | .error e => (.error e, cache)
    | .ok unit =>
      let (stored, cache) := cache.recordCompile.insert key unit
      (.ok stored, cache)

/-! ## Laws of looking up -/

theorem lookup?_insert (cache : Cache α) (key other : Key) (unit : α) :
    (cache.insert key unit).2.lookup? other =
      if other = key then some ((cache.lookup? key).getD unit) else cache.lookup? other := by
  unfold insert
  split
  · next stored h =>
    split
    · next ho => simp [ho, h]
    · rfl
  · next h =>
    simp only [lookup?, Option.map_eq_none_iff] at h
    by_cases ho : other = key
    · subst ho
      simp [lookup?, List.find?_append, h]
    · have : key ≠ other := fun h => ho h.symm
      simp [lookup?, List.find?_append, this, ho]

theorem insert_fst (cache : Cache α) (key : Key) (unit : α) :
    (cache.insert key unit).1 = (cache.lookup? key).getD unit := by
  unfold insert
  split
  · next h => simp [h]
  · next h => simp [h]

@[simp] theorem lookup?_clear (cache : Cache α) (key : Key) : cache.clear.lookup? key = none := rfl

@[simp] theorem lookup?_get (cache : Cache α) (key other : Key) :
    (cache.get key).2.lookup? other = cache.lookup? other := by
  unfold get
  split <;> rfl

@[simp] theorem get_fst (cache : Cache α) (key : Key) :
    (cache.get key).1 = cache.lookup? key := by
  unfold get
  split <;> simp_all

@[simp] theorem lookup?_recordCompile (cache : Cache α) (key : Key) :
    cache.recordCompile.lookup? key = cache.lookup? key := rfl

/-- A unit that is stored counts before the one that would be compiled. -/
theorem getOrCompile_fst (cache : Cache α) (key : Key) (compile : Unit → Except Error α) :
    (cache.getOrCompile key compile).1 = ((cache.lookup? key).map .ok).getD (compile ()) := by
  unfold getOrCompile
  split
  · next unit next h =>
    have hkey : cache.lookup? key = some unit := by rw [← get_fst, h]
    simp [hkey]
  · next next h =>
    have hkey : cache.lookup? key = none := by rw [← get_fst, h]
    have hnext : next.lookup? key = none := by rw [← hkey, ← lookup?_get cache key, h]
    cases compile () with
    | error e => simp [hkey]
    | ok unit => simp [hkey, insert_fst, hnext]

theorem lookup?_getOrCompile (cache : Cache α) (key other : Key)
    (compile : Unit → Except Error α) :
    (cache.getOrCompile key compile).2.lookup? other =
      (cache.lookup? other).or (if other = key then (compile ()).toOption else none) := by
  unfold getOrCompile
  split
  · next unit next h =>
    have hkey : cache.lookup? key = some unit := by rw [← get_fst, h]
    have hnext (k : Key) : next.lookup? k = cache.lookup? k := by
      rw [← lookup?_get cache key, h]
    by_cases ho : other = key <;> simp [hnext, ho, hkey]
  · next next h =>
    have hkey : cache.lookup? key = none := by rw [← get_fst, h]
    have hnext (k : Key) : next.lookup? k = cache.lookup? k := by
      rw [← lookup?_get cache key, h]
    cases compile () with
    | error e => simp [hnext, Except.toOption]
    | ok unit =>
      by_cases ho : other = key <;> simp [lookup?_insert, hnext, ho, hkey, Except.toOption]

/-! ## Laws of counting -/

@[simp] theorem entries_get (cache : Cache α) (key : Key) :
    (cache.get key).2.entries = cache.entries := by
  unfold get
  split <;> rfl

/-- A lookup is a hit or a miss. -/
theorem counters_get (cache : Cache α) (key : Key) :
    (cache.get key).2.counters =
      { hits := cache.counters.hits + (cache.contains key).toNat
        misses := cache.counters.misses + (!cache.contains key).toNat
        compiles := cache.counters.compiles } := by
  unfold get contains
  split <;> next h => simp [h]

@[simp] theorem entries_recordCompile (cache : Cache α) :
    cache.recordCompile.entries = cache.entries := rfl

theorem entries_insert_of_lookup?_eq_none {cache : Cache α} {key : Key}
    (h : cache.lookup? key = none) (unit : α) :
    (cache.insert key unit).2.entries = cache.entries ++ [(key, unit)] := by
  rw [insert, h]

@[simp] theorem counters_insert (cache : Cache α) (key : Key) (unit : α) :
    (cache.insert key unit).2.counters = cache.counters := by
  unfold insert
  split <;> rfl

/-- A unit that is there is not compiled again. -/
theorem getOrCompile_of_contains {cache : Cache α} {key : Key} (h : cache.contains key)
    (compile : Unit → Except Error α) :
    (cache.getOrCompile key compile).2 = (cache.get key).2 := by
  rw [contains, ← get_fst] at h
  unfold getOrCompile
  split
  · next hget => rw [hget]
  · next hget => simp [hget] at h

/-- Without a unit it depends on the compilation what is left behind. -/
theorem getOrCompile_of_not_contains {cache : Cache α} {key : Key} (h : cache.contains key = false)
    (compile : Unit → Except Error α) :
    (cache.getOrCompile key compile).2 =
      match compile () with
      | .error _ => (cache.get key).2
      | .ok unit => ((cache.get key).2.recordCompile.insert key unit).2 := by
  rw [contains, ← get_fst] at h
  unfold getOrCompile
  split
  · next hget => simp [hget] at h
  · next hget =>
    rw [hget]
    cases compile () <;> rfl

/-- A unit is compiled if none is there, and counted if that succeeds. -/
theorem counters_getOrCompile (cache : Cache α) (key : Key) (compile : Unit → Except Error α) :
    (cache.getOrCompile key compile).2.counters =
      { hits := cache.counters.hits + (cache.contains key).toNat
        misses := cache.counters.misses + (!cache.contains key).toNat
        compiles := cache.counters.compiles +
          (!cache.contains key && (compile ()).toOption.isSome).toNat } := by
  cases h : cache.contains key with
  | true => simp [getOrCompile_of_contains h, counters_get, h]
  | false =>
    rw [getOrCompile_of_not_contains h]
    cases compile () with
    | error e => simp [counters_get, h, Except.toOption]
    | ok unit => simp [recordCompile, counters_get, h, Except.toOption]

/-- A unit that has been compiled is stored behind the others. -/
theorem entries_getOrCompile (cache : Cache α) (key : Key) (compile : Unit → Except Error α) :
    (cache.getOrCompile key compile).2.entries =
      cache.entries ++
        if cache.contains key then [] else ((compile ()).toOption.map (key, ·)).toList := by
  cases h : cache.contains key with
  | true => simp [getOrCompile_of_contains h]
  | false =>
    rw [getOrCompile_of_not_contains h]
    have hnone : (cache.get key).2.recordCompile.lookup? key = none := by
      simpa [contains] using h
    cases compile () with
    | error e => simp [Except.toOption]
    | ok unit => simp [entries_insert_of_lookup?_eq_none hnone, Except.toOption]

end Cache

end ComponentTags
