/-!
# Maps in order of insertion

An ordered map is a list of entries with distinct keys. A new key goes to the end; a key that is set
again keeps its place and takes the new value.
-/

namespace NifBindings

variable {κ α β : Type}

/-- Sets the value of a key in a list of entries, in its place or at the end. -/
def setEntry [DecidableEq κ] (key : κ) (value : α) : List (κ × α) → List (κ × α)
  | [] => [(key, value)]
  | entry :: rest =>
    if entry.1 = key then (key, value) :: rest else entry :: setEntry key value rest

/-- The keys after setting one are those before, with the key at the end if it is new. -/
theorem map_fst_setEntry [DecidableEq κ] (key : κ) (value : α) (entries : List (κ × α)) :
    (setEntry key value entries).map Prod.fst =
      if key ∈ entries.map Prod.fst then entries.map Prod.fst
      else entries.map Prod.fst ++ [key] := by
  induction entries with
  | nil => simp [setEntry]
  | cons entry rest ih =>
    rw [setEntry]
    by_cases hkey : entry.1 = key
    · simp [hkey]
    · have hkey' : key ≠ entry.1 := fun h => hkey h.symm
      simp only [hkey, if_false, List.map_cons, ih, List.mem_cons, hkey', false_or]
      split <;> simp

/-- Setting a key keeps the keys distinct. -/
theorem nodup_setEntry [DecidableEq κ] {key : κ} {value : α} {entries : List (κ × α)}
    (hentries : (entries.map Prod.fst).Nodup) :
    ((setEntry key value entries).map Prod.fst).Nodup := by
  rw [map_fst_setEntry]
  split
  · exact hentries
  next hkey =>
    rw [List.nodup_append]
    refine ⟨hentries, by simp, ?_⟩
    intro a ha b hb
    rw [List.mem_singleton] at hb
    subst b
    exact fun h => hkey (h ▸ ha)

/-- Entries with distinct keys, in the order in which the keys first came. -/
structure OrderedMap (κ α : Type) where
  /-- The entries in order. -/
  entries : List (κ × α)
  /-- No key occurs twice. -/
  keys_nodup : (entries.map Prod.fst).Nodup := by simp

namespace OrderedMap

/-- The map without entries. -/
def empty : OrderedMap κ α :=
  ⟨[], List.nodup_nil⟩

instance : Inhabited (OrderedMap κ α) := ⟨empty⟩

/-- The keys in order. -/
def keys (map : OrderedMap κ α) : List κ :=
  map.entries.map Prod.fst

/-- The values in order of their keys. -/
def values (map : OrderedMap κ α) : List α :=
  map.entries.map Prod.snd

/-- The number of entries. -/
def size (map : OrderedMap κ α) : Nat :=
  map.entries.length

/-- Whether there are no entries. -/
def isEmpty (map : OrderedMap κ α) : Bool :=
  map.entries.isEmpty

/-- Sets the value of a key. -/
def insert [DecidableEq κ] (map : OrderedMap κ α) (key : κ) (value : α) : OrderedMap κ α :=
  ⟨setEntry key value map.entries, nodup_setEntry map.keys_nodup⟩

/-- The value of a key. -/
def get? [DecidableEq κ] (map : OrderedMap κ α) (key : κ) : Option α :=
  (map.entries.find? fun entry => entry.1 = key).map Prod.snd

/-- Whether a key has a value. -/
def contains [DecidableEq κ] (map : OrderedMap κ α) (key : κ) : Bool :=
  (map.get? key).isSome

/-- The map that sets the entries of a list one after the other. -/
def ofList [DecidableEq κ] (entries : List (κ × α)) : OrderedMap κ α :=
  entries.foldl (fun map entry => map.insert entry.1 entry.2) empty

/-- The map with a function applied to every value. -/
def mapValues (f : α → β) (map : OrderedMap κ α) : OrderedMap κ β :=
  ⟨map.entries.map fun entry => (entry.1, f entry.2), by
    simpa [List.map_map, Function.comp_def] using map.keys_nodup⟩

/-- Two maps are equal if their entries are. -/
@[ext] theorem ext {a b : OrderedMap κ α} (h : a.entries = b.entries) : a = b := by
  cases a; cases b; cases h; rfl

instance [DecidableEq κ] [DecidableEq α] : DecidableEq (OrderedMap κ α) := fun a b =>
  decidable_of_iff (a.entries = b.entries) ⟨ext, fun h => h ▸ rfl⟩

/-- A new key goes to the end, and a known key leaves the keys as they are. -/
theorem keys_insert [DecidableEq κ] (map : OrderedMap κ α) (key : κ) (value : α) :
    (map.insert key value).keys = if key ∈ map.keys then map.keys else map.keys ++ [key] :=
  map_fst_setEntry key value map.entries

/-- A key that was just set has its new value, and every other key has its old one. -/
theorem get?_insert [DecidableEq κ] (map : OrderedMap κ α) (key other : κ) (value : α) :
    (map.insert key value).get? other = if key = other then some value else map.get? other := by
  obtain ⟨entries, hnodup⟩ := map
  simp only [insert, get?]
  clear hnodup
  induction entries with
  | nil => by_cases h : key = other <;> simp [setEntry, h]
  | cons entry rest ih =>
    rw [setEntry]
    by_cases hkey : entry.1 = key
    · subst hkey
      by_cases hother : entry.1 = other <;> simp [hother]
    · by_cases hother : entry.1 = other
      · have hne : key ≠ other := fun h => hkey (hother.trans h.symm)
        rw [if_neg hkey]
        simp [hother, hne]
      · simpa [hkey, hother] using ih

/-- A key has a value exactly if it is one of the keys. -/
theorem contains_iff_mem_keys [DecidableEq κ] (map : OrderedMap κ α) (key : κ) :
    map.contains key = true ↔ key ∈ map.keys := by
  simp [contains, get?, keys]

/-- A key has a value exactly if the two stand together among the entries. -/
theorem get?_eq_some_iff [DecidableEq κ] {map : OrderedMap κ α} {key : κ} {value : α} :
    map.get? key = some value ↔ (key, value) ∈ map.entries := by
  obtain ⟨entries, hnodup⟩ := map
  simp only [get?]
  induction entries with
  | nil => simp
  | cons entry rest ih =>
    rw [List.map_cons, List.nodup_cons] at hnodup
    by_cases hkey : entry.1 = key
    · subst hkey
      have hrest : (entry.1, value) ∉ rest := fun hmem =>
        hnodup.1 (List.mem_map.mpr ⟨(entry.1, value), hmem, rfl⟩)
      simp [hrest, Prod.ext_iff, eq_comm]
    · have hentry : (key, value) ≠ entry := fun h => hkey (h ▸ rfl)
      simpa [hkey, hentry] using ih hnodup.2

/-- A function applied to every value is applied to the value of each key. -/
theorem get?_mapValues [DecidableEq κ] (f : α → β) (map : OrderedMap κ α) (key : κ) :
    (map.mapValues f).get? key = (map.get? key).map f := by
  simp [get?, mapValues, List.find?_map, Function.comp_def]

end OrderedMap

end NifBindings
