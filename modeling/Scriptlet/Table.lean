/-!
Tables from names to values that remember the order in which names were added. Writing to a name
that is present keeps its place; a new name goes to the end. Main statements: what a table holds
after a write (`get?_insert`), and the order of its names (`names_insert`).
-/
namespace Scriptlet

/-- Names with their values, in the order of their first writing. -/
structure Table (α : Type) where
  entries : List (String × α)
  nodup : (entries.map (·.1)).Nodup

namespace Table

variable {α : Type}

def empty : Table α := ⟨[], List.nodup_nil⟩

instance : Inhabited (Table α) := ⟨empty⟩

def find? (name : String) : List (String × α) → Option α
  | [] => none
  | (key, value) :: entries => if key = name then some value else find? name entries

def put (name : String) (value : α) : List (String × α) → List (String × α)
  | [] => [(name, value)]
  | (key, old) :: entries =>
    if key = name then (key, value) :: entries else (key, old) :: put name value entries

theorem map_fst_put (name : String) (value : α) (entries : List (String × α)) :
    (put name value entries).map (·.1) =
      if name ∈ entries.map (·.1) then entries.map (·.1) else entries.map (·.1) ++ [name] := by
  induction entries with
  | nil => rfl
  | cons e entries ih =>
    obtain ⟨key, old⟩ := e
    by_cases h : key = name
    · simp [put, h]
    · simp only [put, h, if_false, List.map_cons, ih, List.mem_cons, Ne.symm h, false_or]
      split <;> rfl

def get? (t : Table α) (name : String) : Option α :=
  find? name t.entries

def contains (t : Table α) (name : String) : Bool :=
  (t.get? name).isSome

def size (t : Table α) : Nat :=
  t.entries.length

def names (t : Table α) : List String :=
  t.entries.map (·.1)

theorem length_names (t : Table α) : t.names.length = t.size :=
  List.length_map _

def insert (t : Table α) (name : String) (value : α) : Table α where
  entries := put name value t.entries
  nodup := by
    rw [map_fst_put]
    split
    · exact t.nodup
    · next h =>
      rw [List.nodup_append]
      refine ⟨t.nodup, by simp, ?_⟩
      intro a ha b hb hab
      rw [List.mem_singleton] at hb
      exact h (hb ▸ hab ▸ ha)

/-- The table of pairs that are written one after the other. -/
def ofList (pairs : List (String × α)) : Table α :=
  pairs.foldl (fun t (name, value) => t.insert name value) empty

theorem find?_put (name other : String) (value : α) (entries : List (String × α)) :
    find? other (put name value entries) =
      if name = other then some value else find? other entries := by
  induction entries with
  | nil => simp [put, find?]
  | cons e entries ih =>
    obtain ⟨key, old⟩ := e
    by_cases h : key = name
    · subst h
      by_cases ho : key = other <;> simp [put, find?, ho]
    · by_cases ho : key = other
      · subst ho
        simp [put, find?, h, Ne.symm h]
      · simp [put, find?, h, ho, ih]

theorem get?_insert (t : Table α) (name other : String) (value : α) :
    (t.insert name value).get? other = if name = other then some value else t.get? other :=
  find?_put name other value t.entries

theorem names_insert (t : Table α) (name : String) (value : α) :
    (t.insert name value).names = if name ∈ t.names then t.names else t.names ++ [name] :=
  map_fst_put name value t.entries

theorem find?_isSome (name : String) (entries : List (String × α)) :
    (find? name entries).isSome ↔ name ∈ entries.map (·.1) := by
  induction entries with
  | nil => simp [find?]
  | cons e entries ih =>
    obtain ⟨key, value⟩ := e
    by_cases h : key = name
    · simp [find?, h]
    · simpa [find?, h, Ne.symm h] using ih

theorem find?_of_mem {name : String} {value : α} {entries : List (String × α)}
    (hn : (entries.map (·.1)).Nodup) (h : (name, value) ∈ entries) :
    find? name entries = some value := by
  induction entries with
  | nil => cases h
  | cons e entries ih =>
    obtain ⟨key, old⟩ := e
    rw [List.map_cons, List.nodup_cons] at hn
    rcases List.mem_cons.1 h with heq | h
    · cases heq
      simp [find?]
    · have hkey : key ≠ name := by
        rintro rfl
        exact hn.1 (List.mem_map.2 ⟨_, h, rfl⟩)
      rw [find?, if_neg hkey]
      exact ih hn.2 h

theorem mem_of_find? {name : String} {value : α} {entries : List (String × α)}
    (h : find? name entries = some value) : (name, value) ∈ entries := by
  induction entries with
  | nil => cases h
  | cons e entries ih =>
    obtain ⟨key, old⟩ := e
    rw [find?] at h
    split at h
    · next hkey =>
      cases h
      rw [hkey]
      exact List.mem_cons_self
    · exact List.mem_cons_of_mem _ (ih h)

theorem get?_eq_some_iff {t : Table α} {name : String} {value : α} :
    t.get? name = some value ↔ (name, value) ∈ t.entries :=
  ⟨mem_of_find?, find?_of_mem t.nodup⟩

theorem contains_iff (t : Table α) (name : String) : t.contains name ↔ name ∈ t.names :=
  find?_isSome name t.entries

theorem names_insert_of_get? {t : Table α} {name : String} {old value : α}
    (h : t.get? name = some old) : (t.insert name value).names = t.names := by
  have hmem : name ∈ t.names := by
    rw [← contains_iff, contains, h]
    rfl
  rw [names_insert, if_pos hmem]

theorem ofList_append (pairs : List (String × α)) (name : String) (value : α) :
    ofList (pairs ++ [(name, value)]) = (ofList pairs).insert name value := by
  simp [ofList, List.foldl_append]

theorem contains_insert (t : Table α) (name other : String) (value : α) :
    (t.insert name value).contains other ↔ name = other ∨ t.contains other := by
  rw [contains, contains, get?_insert]
  by_cases h : name = other <;> simp [h]

theorem contains_foldl_insert (pairs : List (String × α)) (t : Table α) (name : String) :
    (pairs.foldl (fun t (name, value) => t.insert name value) t).contains name ↔
      t.contains name ∨ name ∈ pairs.map (·.1) := by
  induction pairs generalizing t with
  | nil => simp
  | cons pair pairs ih =>
    rw [List.foldl_cons, ih, contains_insert, List.map_cons, List.mem_cons, or_assoc, eq_comm,
      or_left_comm]

theorem contains_ofList (pairs : List (String × α)) (name : String) :
    (ofList pairs).contains name ↔ name ∈ pairs.map (·.1) := by
  rw [ofList, contains_foldl_insert]
  simp [contains, get?, empty, find?]

theorem mem_of_get?_foldl_insert {pairs : List (String × α)} {t : Table α} {name : String}
    {value : α}
    (h : (pairs.foldl (fun t (name, value) => t.insert name value) t).get? name = some value) :
    t.get? name = some value ∨ (name, value) ∈ pairs := by
  induction pairs generalizing t with
  | nil => exact .inl h
  | cons pair pairs ih =>
    obtain ⟨key, other⟩ := pair
    rcases ih h with h | h
    · rw [get?_insert] at h
      split at h
      · next heq =>
        cases h
        rw [heq]
        exact .inr List.mem_cons_self
      · exact .inl h
    · exact .inr (List.mem_cons_of_mem _ h)

theorem mem_of_get?_ofList {pairs : List (String × α)} {name : String} {value : α}
    (h : (ofList pairs).get? name = some value) : (name, value) ∈ pairs := by
  rcases mem_of_get?_foldl_insert h with h | h
  · cases h
  · exact h

end Table
end Scriptlet
