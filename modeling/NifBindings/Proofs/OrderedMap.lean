import Mathlib.Data.List.Induction
import Mathlib.Data.List.Nodup
import NifBindings.OrderedMap
import NifBindings.Proofs.Basic

/-!
# Maps made from lists

A map that is made by setting the entries of a list one after the other holds for each key the last
value that the list has for it. A run of steps that set what they read leaves such a map. It holds
everything that was read exactly if no key was read with two values.
-/

namespace NifBindings

variable {ε κ α β σ : Type}

/-- Whether no key of a list stands with two values. -/
def Consistent (entries : List (κ × α)) : Prop :=
  ∀ a ∈ entries, ∀ b ∈ entries, a.1 = b.1 → a = b

/-- No key stands with two values if none stands twice. -/
theorem consistent_of_nodup {entries : List (κ × α)} (h : (entries.map Prod.fst).Nodup) :
    Consistent entries :=
  fun _ ha _ hb hkey => List.inj_on_of_nodup_map h ha hb hkey

namespace OrderedMap

/-- A value to which a function was applied is one of those before, if the function keeps different
values apart. -/
theorem mem_values_of_mem_mapValues {f : α → β} (hf : Function.Injective f) {map : OrderedMap κ α}
    {key : κ} {value : α} (h : (key, f value) ∈ (map.mapValues f).entries) :
    value ∈ map.values := by
  obtain ⟨entry, hentry, hsame⟩ := List.mem_map.mp h
  exact List.mem_map.mpr ⟨entry, hentry, hf (Prod.mk.inj hsame).2⟩

/-- Maps are told apart after a function was applied to their values, if the function keeps
different values apart. -/
theorem mapValues_injective {f : α → β} (hf : Function.Injective f) :
    Function.Injective (mapValues f : OrderedMap κ α → OrderedMap κ β) := by
  intro a b hsame
  have hentries := congrArg entries hsame
  refine ext (List.map_injective_iff.mpr ?_ hentries)
  rintro ⟨key, value⟩ ⟨other, another⟩ hpair
  obtain ⟨hkey, hvalue⟩ := Prod.mk.inj hpair
  exact Prod.ext hkey (hf hvalue)

/-- A function applied to every value is applied to the values in order. -/
theorem values_mapValues (f : α → β) (map : OrderedMap κ α) :
    (map.mapValues f).values = map.values.map f := by
  simp [values, mapValues]

variable [DecidableEq κ]

/-- The map without the value of a key. -/
def without (map : OrderedMap κ α) (key : κ) : OrderedMap κ α :=
  ⟨map.entries.filter fun entry => entry.1 ≠ key,
    (List.filter_sublist.map Prod.fst).nodup map.keys_nodup⟩

/-- The other keys keep their values. -/
theorem get?_without (map : OrderedMap κ α) {key other : κ} (h : other ≠ key) :
    (map.without key).get? other = map.get? other := by
  unfold get? without
  rw [List.find?_filter]
  congr 2
  funext entry
  by_cases hentry : entry.1 = other <;> simp [hentry, h]

/-- The key has no value any more. -/
theorem get?_without_self (map : OrderedMap κ α) (key : κ) :
    (map.without key).get? key = none := by
  simp [get?, without, List.find?_filter]

/-- Whether a map holds every entry of a list. -/
def HoldsAll (map : OrderedMap κ α) (entries : List (κ × α)) : Prop :=
  ∀ entry ∈ entries, map.get? entry.1 = some entry.2

/-- Setting one more entry comes last. -/
theorem ofList_concat (entries : List (κ × α)) (entry : κ × α) :
    ofList (entries ++ [entry]) = (ofList entries).insert entry.1 entry.2 := by
  simp [ofList]

/-- A map made from a list holds the last value of each key. -/
theorem get?_ofList (entries : List (κ × α)) (key : κ) :
    (ofList entries).get? key =
      (entries.reverse.find? fun entry => entry.1 = key).map Prod.snd := by
  induction entries using List.reverseRecOn with
  | nil => rfl
  | append_singleton entries entry ih =>
    rw [ofList_concat, get?_insert, List.reverse_append, List.reverse_singleton,
      List.singleton_append]
    by_cases hkey : entry.1 = key
    · simp [hkey]
    · simp [hkey, ih]

/-- Setting a new key puts it at the end. -/
theorem setEntry_of_not_mem {key : κ} {value : α} {entries : List (κ × α)}
    (h : key ∉ entries.map Prod.fst) : setEntry key value entries = entries ++ [(key, value)] := by
  induction entries with
  | nil => rfl
  | cons entry entries ih =>
    rw [List.map_cons, List.mem_cons, not_or] at h
    rw [setEntry, if_neg fun hsame => h.1 hsame.symm, ih h.2]
    rfl

/-- A map is made from its own entries. -/
theorem ofList_entries (map : OrderedMap κ α) : ofList map.entries = map := by
  have hentries (entries : List (κ × α)) (h : (entries.map Prod.fst).Nodup) :
      (ofList entries).entries = entries := by
    induction entries using List.reverseRecOn with
    | nil => rfl
    | append_singleton entries entry ih =>
      rw [List.map_append, List.map_singleton, List.nodup_append] at h
      have hnew : entry.1 ∉ entries.map Prod.fst :=
        fun hmem => h.2.2 entry.1 hmem entry.1 (List.mem_singleton_self _) rfl
      rw [← ih h.1] at hnew
      rw [ofList_concat]
      exact (setEntry_of_not_mem hnew).trans (by rw [ih h.1])
  exact ext (hentries map.entries map.keys_nodup)

/-- Whatever a map made from a list holds stands in the list. -/
theorem mem_of_mem_ofList {entries : List (κ × α)} {entry : κ × α}
    (h : entry ∈ (ofList entries).entries) : entry ∈ entries := by
  have hget : (ofList entries).get? entry.1 = some entry.2 := get?_eq_some_iff.mpr h
  rw [get?_ofList, Option.map_eq_some_iff] at hget
  obtain ⟨found, hfound, hvalue⟩ := hget
  have hkey : found.1 = entry.1 := by simpa using List.find?_some hfound
  have hmem : found ∈ entries := List.mem_reverse.mp (List.mem_of_find?_eq_some hfound)
  rwa [Prod.ext hkey hvalue] at hmem

/-- A map made from a list has a value for each of its keys, which stands with the key in the
list. -/
theorem exists_get?_ofList {entries : List (κ × α)} {entry : κ × α} (h : entry ∈ entries) :
    ∃ value, (ofList entries).get? entry.1 = some value ∧ (entry.1, value) ∈ entries := by
  cases hfind : entries.reverse.find? fun other => other.1 = entry.1 with
  | none =>
    have hne := List.find?_eq_none.mp hfind entry (List.mem_reverse.mpr h)
    simp at hne
  | some found =>
    have hget : (ofList entries).get? entry.1 = some found.2 := by rw [get?_ofList, hfind]; rfl
    exact ⟨found.2, hget, mem_of_mem_ofList (get?_eq_some_iff.mp hget)⟩

/-- A map made from a list holds all of it exactly if no key stands with two values. -/
theorem holdsAll_ofList_iff {entries : List (κ × α)} :
    (ofList entries).HoldsAll entries ↔ Consistent entries := by
  constructor
  · intro hall a ha b hb hkey
    have hvalue : some a.2 = some b.2 := by rw [← hall a ha, ← hall b hb, hkey]
    exact Prod.ext hkey (Option.some.inj hvalue)
  · intro hconsistent entry hentry
    obtain ⟨value, hget, hmem⟩ := exists_get?_ofList hentry
    rw [hget, ← hconsistent _ hmem entry hentry rfl]

/-- A function is applied to a value that is set. -/
theorem mapValues_insert (f : α → β) (map : OrderedMap κ α) (key : κ) (value : α) :
    (map.insert key value).mapValues f = (map.mapValues f).insert key (f value) := by
  have hset (entries : List (κ × α)) :
      (setEntry key value entries).map (fun entry => (entry.1, f entry.2)) =
        setEntry key (f value) (entries.map fun entry => (entry.1, f entry.2)) := by
    induction entries with
    | nil => rfl
    | cons entry rest ih =>
      rw [setEntry, List.map_cons, setEntry]
      by_cases hkey : entry.1 = key
      · rw [if_pos hkey, if_pos hkey, List.map_cons]
      · rw [if_neg hkey, if_neg hkey, List.map_cons, ih]
  exact ext (hset map.entries)

/-- If each step of a run sets what it reads in a map, or leaves the map as it is, the run makes the
map from all that was read. -/
theorem exists_ofList_of_foldlM {step : σ → α → Except ε σ} (view : σ → OrderedMap κ β)
    {reads : α → Bool} {read : α → Except ε (κ × β)} {start final : σ} {inputs : List α}
    (hrun : inputs.foldlM step start = .ok final) (hstart : view start = empty)
    (hstep : ∀ {state next : σ} {input : α}, step state input = .ok next →
      if reads input then ∃ entry, read input = .ok entry ∧
        view next = (view state).insert entry.1 entry.2
      else view next = view state) :
    ∃ entries, (inputs.filter reads).mapM read = .ok entries ∧ view final = ofList entries := by
  obtain ⟨entries, hentries, hview⟩ := exists_foldl_of_foldlM view
    (fun map (entry : κ × β) => map.insert entry.1 entry.2) hrun hstep
  exact ⟨entries, hentries, by rw [hview, hstart, ofList]⟩

/-- If each step of a run sets what it reads in a map, the run makes the map from all that was
read. -/
theorem exists_ofList_of_foldlM_set {step : σ → α → Except ε σ} (view : σ → OrderedMap κ β)
    {read : α → Except ε (κ × β)} {start final : σ} {inputs : List α}
    (hrun : inputs.foldlM step start = .ok final) (hstart : view start = empty)
    (hstep : ∀ {state next : σ} {input : α}, step state input = .ok next →
      ∃ entry, read input = .ok entry ∧ view next = (view state).insert entry.1 entry.2) :
    ∃ entries, inputs.mapM read = .ok entries ∧ view final = ofList entries := by
  obtain ⟨entries, hread, hview⟩ := @exists_ofList_of_foldlM _ _ _ _ _ _ step view (fun _ => true)
    read start final inputs hrun hstart fun h => by simpa using hstep h
  rw [List.filter_eq_self.mpr fun _ _ => rfl] at hread
  exact ⟨entries, hread, hview⟩

end OrderedMap

end NifBindings
