import ComponentTags.Text.Basic

/-!
# Entries in key order

A finite map from texts as the list of its entries in increasing key order. Inserting replaces the
entry of the same key, so a map built from a list keeps the last value of each key.
-/

namespace ComponentTags.Keyed

variable {α : Type u}

def insert (key : Text) (value : α) : List (Text × α) → List (Text × α)
  | [] => [(key, value)]
  | (k, v) :: rest =>
    if key = k then (key, value) :: rest
    else if key < k then (key, value) :: (k, v) :: rest
    else (k, v) :: insert key value rest

def find? (key : Text) : List (Text × α) → Option α
  | [] => none
  | (k, v) :: rest => if k = key then some v else find? key rest

def ofList (entries : List (Text × α)) : List (Text × α) :=
  entries.foldl (fun map entry => insert entry.1 entry.2 map) []

theorem find?_insert (key k : Text) (value : α) (entries : List (Text × α)) :
    find? k (insert key value entries) = if key = k then some value else find? k entries := by
  induction entries with
  | nil => simp [insert, find?]
  | cons e rest ih =>
    obtain ⟨k', v⟩ := e
    unfold insert
    split
    · next h => subst h; by_cases h' : key = k <;> simp [find?, h']
    · split
      · simp [find?]
      · next hne _ =>
        by_cases h' : k' = k
        · have : key ≠ k := fun h => hne (h.trans h'.symm)
          simp [find?, h', this]
        · simp [find?, h', ih]

theorem isSome_find?_iff {key : Text} {entries : List (Text × α)} :
    (find? key entries).isSome ↔ key ∈ entries.map Prod.fst := by
  induction entries with
  | nil => simp [find?]
  | cons e rest ih =>
    obtain ⟨k, v⟩ := e
    rw [find?]
    by_cases h : k = key
    · simp [h]
    · simp [h, Ne.symm h, ih]

/-! ## What is kept -/

theorem mem_insert {key : Text} {value : α} {entries : List (Text × α)} {e : Text × α}
    (h : e ∈ insert key value entries) : e = (key, value) ∨ e ∈ entries := by
  induction entries with
  | nil => simpa [insert] using h
  | cons e' rest ih =>
    unfold insert at h
    split at h
    · grind
    · split at h <;> grind

theorem mem_of_mem_ofList {entries : List (Text × α)} {e : Text × α} (h : e ∈ ofList entries) :
    e ∈ entries := by
  suffices ∀ map, e ∈ entries.foldl (fun map entry => insert entry.1 entry.2 map) map →
      e ∈ map ∨ e ∈ entries by simpa using this [] h
  clear h
  induction entries with
  | nil => simp
  | cons e' rest ih =>
    intro map h
    rcases ih _ h with h | h
    · rcases mem_insert h with rfl | h <;> simp [*]
    · simp [h]

/-- The values of a map hold no more of an item than those it is built from. -/
theorem count_ofList_le {β : Type} [BEq β] (x : β) (entries : List (Text × List β)) :
    ((ofList entries).flatMap Prod.snd).count x ≤ (entries.flatMap Prod.snd).count x := by
  have insert_le (key : Text) (value : List β) (map : List (Text × List β)) :
      ((insert key value map).flatMap Prod.snd).count x ≤
        value.count x + (map.flatMap Prod.snd).count x := by
    induction map with
    | nil => simp [insert]
    | cons e rest ih =>
      obtain ⟨k, v⟩ := e
      unfold insert
      simp only [List.flatMap_cons, List.count_append]
      split
      · simp only [List.flatMap_cons, List.count_append]
        omega
      · split <;> simp only [List.flatMap_cons, List.count_append] <;> omega
  suffices ∀ map, ((entries.foldl (fun map entry => insert entry.1 entry.2 map) map).flatMap
      Prod.snd).count x ≤ (map.flatMap Prod.snd).count x + (entries.flatMap Prod.snd).count x by
    simpa [ofList] using this []
  induction entries with
  | nil => simp
  | cons e rest ih =>
    intro map
    obtain ⟨k, v⟩ := e
    have := ih (insert k v map)
    have := insert_le k v map
    simp only [List.foldl_cons, List.flatMap_cons, List.count_append]
    omega

/-! ## Last values -/

/-- The map that keeps the last value of each key, with its keys in increasing order. -/
structure KeepsLast (entries map : List (Text × α)) : Prop where
  increasing : map.Pairwise (·.1 < ·.1)
  find? : ∀ key, find? key map = ((entries.filter (·.1 = key)).getLast?).map Prod.snd

theorem pairwise_insert (key : Text) (value : α) {map : List (Text × α)}
    (h : map.Pairwise (·.1 < ·.1)) : (insert key value map).Pairwise (·.1 < ·.1) := by
  induction map with
  | nil => simp [insert]
  | cons e rest ih =>
    obtain ⟨k, v⟩ := e
    obtain ⟨hk, hrest⟩ := List.pairwise_cons.1 h
    unfold insert
    split
    · next heq =>
      subst heq
      exact List.pairwise_cons.2 ⟨hk, hrest⟩
    · next hne =>
      split
      · next hlt =>
        refine List.pairwise_cons.2 ⟨List.forall_mem_cons.2 ⟨hlt, fun e he => ?_⟩, h⟩
        exact List.lt_trans hlt (hk e he)
      · next hnot =>
        have hgt : k < key := by
          rcases Std.lt_trichotomy key k with hlt | heq | hgt
          · exact absurd hlt hnot
          · exact absurd heq hne
          · exact hgt
        refine List.pairwise_cons.2 ⟨fun e he => ?_, ih hrest⟩
        rcases mem_insert he with rfl | he
        · exact hgt
        · exact hk e he

theorem keepsLast_ofList (entries : List (Text × α)) : KeepsLast entries (ofList entries) where
  increasing := by
    suffices ∀ map : List (Text × α), map.Pairwise (·.1 < ·.1) →
        (entries.foldl (fun map entry => insert entry.1 entry.2 map) map).Pairwise (·.1 < ·.1) by
      exact this [] .nil
    induction entries with
    | nil => exact fun map h => h
    | cons e rest ih => exact fun map h => ih _ (pairwise_insert e.1 e.2 h)
  find? key := by
    suffices ∀ map : List (Text × α),
        Keyed.find? key (entries.foldl (fun map entry => insert entry.1 entry.2 map) map) =
          (((entries.filter (·.1 = key)).getLast?).map Prod.snd).or (Keyed.find? key map) by
      simpa [ofList, Keyed.find?] using this []
    induction entries with
    | nil => simp
    | cons e rest ih =>
      intro map
      rw [List.foldl_cons, ih, find?_insert, List.filter_cons]
      by_cases hkey : e.1 = key
      · simp only [hkey, decide_true, if_true, List.getLast?_cons]
        cases (rest.filter (·.1 = key)).getLast? <;> simp
      · simp [hkey]

end ComponentTags.Keyed
