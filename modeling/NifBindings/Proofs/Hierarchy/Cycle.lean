import NifBindings.Proofs.Hierarchy.Ancestry

/-!
# Cycles

The search for a cycle climbs from an object until there is no parent or the next one has been met
before. It ends, because no path without repetition is longer than the links, and it ends in a cycle
exactly if the object runs into one. The search takes the objects in order, so the cycle that
refuses the links belongs to the first object that runs into one.
-/

namespace NifBindings

namespace ParentLinks

/-- One step of the search: the next parent joins the path, unless it stands there already. -/
def searchStep (links : ParentLinks) :
    List String × Option String → Option (List String × Option String)
  | (_, none) => none
  | (path, some name) =>
    if name ∈ path then none else some (path ++ [name], links.parent? name)

/-- The cycle that a search ended in: the path from where the next parent stands in it. -/
def closedCycle? : List String × Option String → Option (List String)
  | (_, none) => none
  | (path, some name) => some (path.dropWhile (· ≠ name) ++ [name])

/-- The path of a search and the parent that is next on it. -/
structure Climb (links : ParentLinks) (start : String) (path : List String)
    (next? : Option String) : Prop where
  /-- The path begins with the object that is searched from. -/
  head_eq : path.head? = some start
  /-- It meets no object twice. -/
  nodup : path.Nodup
  /-- It meets objects only. -/
  subset_keys : path ⊆ links.keys
  /-- Each object is followed by its parent. -/
  chain : path.IsChain links.IsParent
  /-- The parent of the last object is next. -/
  next_eq : path.getLast?.bind links.parent? = next?

variable {links : ParentLinks} {start name : String} {path : List String} {next? : Option String}

/-- What is left of a path from an object on begins with this object. -/
theorem exists_dropWhile_eq_cons (hmem : name ∈ path) :
    ∃ tail rest, path = tail ++ name :: rest ∧ path.dropWhile (· ≠ name) = name :: rest := by
  induction path with
  | nil => cases hmem
  | cons first path ih =>
    by_cases hfirst : first = name
    · subst hfirst
      exact ⟨[], path, rfl, by simp⟩
    · have hmem : name ∈ path := by simpa [Ne.symm hfirst] using hmem
      obtain ⟨tail, rest, htail, hdrop⟩ := ih hmem
      refine ⟨first :: tail, rest, by rw [htail]; rfl, ?_⟩
      simpa [hfirst] using hdrop

namespace Climb

/-- A search begins with an object and its parent. -/
theorem initial (hstart : start ∈ links.keys) :
    links.Climb start [start] (links.parent? start) where
  head_eq := rfl
  nodup := by simp
  subset_keys := by simpa using hstart
  chain := List.isChain_singleton start
  next_eq := rfl

/-- The next object is the parent of the last one on the path. -/
theorem exists_isParent (hclosed : links.Closed) (h : links.Climb start path (some name)) :
    ∃ last, path.getLast? = some last ∧ links.IsParent last name := by
  obtain ⟨last, hlast, hparent⟩ := Option.bind_eq_some_iff.mp h.next_eq
  exact ⟨last, hlast, hclosed.isParent_iff.mpr hparent⟩

/-- The path with the next object is a chain of parents as well. -/
theorem chain_concat (hclosed : links.Closed) (h : links.Climb start path (some name)) :
    (path ++ [name]).IsChain links.IsParent := by
  obtain ⟨last, hlast, hparent⟩ := h.exists_isParent hclosed
  refine List.isChain_append.mpr ⟨h.chain, List.isChain_singleton name, ?_⟩
  intro child hchild next hnext
  rw [hlast, Option.mem_some_iff] at hchild
  rw [List.head?_singleton, Option.mem_some_iff] at hnext
  rwa [← hchild, ← hnext]

/-- A step of the search goes on with the parent of the object that joins the path. -/
theorem push (hclosed : links.Closed) (h : links.Climb start path (some name))
    (hnew : name ∉ path) : links.Climb start (path ++ [name]) (links.parent? name) := by
  obtain ⟨last, _, hparent⟩ := h.exists_isParent hclosed
  refine ⟨?_, ?_, ?_, h.chain_concat hclosed, by simp⟩
  · rw [List.head?_append, h.head_eq]
    rfl
  · rw [List.nodup_append]
    refine ⟨h.nodup, by simp, ?_⟩
    intro a ha b hb hab
    rw [List.mem_singleton] at hb
    exact hnew (hb ▸ hab ▸ ha)
  · exact List.append_subset.mpr ⟨h.subset_keys, by simpa using hparent.2⟩

/-- A search with enough steps ends, and it yields the cycle that it ended in. -/
theorem exists_endsIn {fuel : Nat} (hclosed : links.Closed) (h : links.Climb start path next?)
    (hfuel : links.size < path.length + fuel) :
    ∃ path' next', EndsIn links.searchStep (path, next?) (path', next') ∧
      links.Climb start path' next' ∧
      links.cycleAlong? fuel path next? = closedCycle? (path', next') := by
  -- Each step makes the path longer by one. A path without repetition is no longer than the links,
  -- so the fuel does not run out.
  induction fuel generalizing path next? with
  | zero =>
    have hlength := length_le_size h.nodup h.subset_keys
    omega
  | succ fuel ih =>
    cases next? with
    | none => exact ⟨path, none, ⟨.refl, rfl⟩, h, rfl⟩
    | some name =>
      by_cases hmem : name ∈ path
      · refine ⟨path, some name, ⟨.refl, if_pos hmem⟩, h, ?_⟩
        rw [cycleAlong?, if_pos hmem]
        rfl
      · have hlonger : links.size < (path ++ [name]).length + fuel := by
          rw [List.length_append, List.length_singleton]
          omega
        obtain ⟨path', next', hends, hclimb, hcycle⟩ := ih (h.push hclosed hmem) hlonger
        refine ⟨path', next', hends.head (if_neg hmem), hclimb, ?_⟩
        rw [cycleAlong?, if_neg hmem]
        exact hcycle

/-- A path that ends at an object without a parent leads to the top. -/
theorem exists_ascent (h : links.Climb start path none) : ∃ above, links.Ascent start above := by
  obtain ⟨above, rfl⟩ := List.head?_eq_some_iff.mp h.head_eq
  exact ⟨above, ascent_of_isChain h.chain h.next_eq⟩

/-- A path whose next object stands in it is closed at that object, and the path before it leads
into the cycle. -/
theorem exists_runsInto (hclosed : links.Closed) (h : links.Climb start path (some name))
    (hmem : name ∈ path) :
    ∃ cycle, closedCycle? (path, some name) = some cycle ∧ links.RunsInto start cycle := by
  obtain ⟨tail, rest, htail, hdrop⟩ := exists_dropWhile_eq_cons hmem
  refine ⟨name :: rest ++ [name], by rw [closedCycle?, hdrop], tail, name, rest, rfl, ?_, ?_, ?_⟩
  · exact htail ▸ h.nodup
  · have hchain := h.chain_concat hclosed
    rw [htail] at hchain
    simpa using hchain
  · have hhead := h.head_eq
    rw [htail] at hhead
    cases tail <;> simpa using hhead

end Climb

/-- Objects that follow one another as parents lead from the first to each later one. -/
theorem transGen_of_isChain {first : String} {rest : List String}
    (hchain : (first :: rest).IsChain links.IsParent) (hmem : name ∈ rest) :
    Relation.TransGen links.IsParent first name := by
  have htrans : (first :: rest).IsChain (Relation.TransGen links.IsParent) :=
    hchain.imp fun _ _ => .single
  exact htrans.rel_cons hmem

/-- What runs into a listed cycle reaches an object that is its own ancestor. -/
theorem RunsInto.reachesCycle {cycle : List String} (h : links.RunsInto start cycle) :
    links.ReachesCycle start := by
  obtain ⟨tail, first, rest, rfl, _, hchain, hhead⟩ := h
  have hcycle : Relation.TransGen links.IsParent first first :=
    transGen_of_isChain hchain.right_of_append (by simp)
  refine ⟨first, ?_, hcycle⟩
  cases tail with
  | nil =>
    obtain rfl : first = start := by simpa using hhead
    exact .refl
  | cons outside tail =>
    obtain rfl : outside = start := by simpa using hhead
    exact (transGen_of_isChain hchain (by simp)).to_reflTransGen

/-- The search from an object ends, in no cycle if none is ahead of it, and otherwise in the cycle
that it runs into. -/
theorem search_cases (hclosed : links.Closed) (hstart : start ∈ links.keys) :
    (∃ final, EndsIn links.searchStep ([start], links.parent? start) final ∧
        links.cycleFrom? start = closedCycle? final) ∧
      ((links.cycleFrom? start = none ∧ ∃ above, links.Ascent start above) ∨
        ∃ cycle, links.cycleFrom? start = some cycle ∧ links.RunsInto start cycle) := by
  have hfuel : links.size < [start].length + links.size := by
    rw [List.length_singleton]
    omega
  obtain ⟨path, next?, hends, hclimb, hcycle⟩ :=
    (Climb.initial hstart).exists_endsIn hclosed hfuel
  refine ⟨⟨_, hends, hcycle⟩, ?_⟩
  cases next? with
  | none => exact .inl ⟨hcycle, hclimb.exists_ascent⟩
  | some name =>
    have hmem : name ∈ path := by
      by_contra hnew
      have hstep := hends.2
      rw [searchStep, if_neg hnew] at hstep
      cases hstep
    obtain ⟨cycle, hclosing, hruns⟩ := hclimb.exists_runsInto hclosed hmem
    exact .inr ⟨cycle, hcycle.trans hclosing, hruns⟩

/-- No cycle is found from an object exactly if it runs into none. -/
theorem cycleFrom?_eq_none_iff (hclosed : links.Closed) (hstart : start ∈ links.keys) :
    links.cycleFrom? start = none ↔ ¬links.ReachesCycle start := by
  obtain ⟨_, ⟨hnone, above, habove⟩ | ⟨cycle, hsome, hcycle⟩⟩ := search_cases hclosed hstart
  · simp [hnone, habove.not_reachesCycle]
  · simp [hsome, hcycle.reachesCycle]

/-- No cycle is found in the links exactly if no object is its own ancestor. -/
theorem firstCycle?_eq_none_iff (hclosed : links.Closed) :
    links.firstCycle? = none ↔ ∀ name, ¬Relation.TransGen links.IsParent name name := by
  rw [firstCycle?, List.findSome?_eq_none_iff]
  constructor
  · intro hnone name hcycle
    obtain ⟨parent, hparent, _⟩ := Relation.TransGen.head'_iff.mp hcycle
    have hname := mem_keys_of_parent? hparent.1
    exact (cycleFrom?_eq_none_iff hclosed hname).mp (hnone name hname) ⟨name, .refl, hcycle⟩
  · intro hacyclic name hname
    rw [cycleFrom?_eq_none_iff hclosed hname]
    rintro ⟨other, _, hcycle⟩
    exact hacyclic other hcycle

/-- The cycle that is found first is the one that the first object to run into a cycle runs into. -/
theorem exists_of_firstCycle?_eq_some {cycle : List String} (hclosed : links.Closed)
    (hfound : links.firstCycle? = some cycle) :
    ∃ before start behind, links.keys = before ++ start :: behind ∧
      (∀ name ∈ before, ¬links.ReachesCycle name) ∧ links.RunsInto start cycle := by
  obtain ⟨before, start, behind, hkeys, hstart, hnone⟩ := List.findSome?_eq_some_iff.mp hfound
  have hknown : start ∈ links.keys := by simp [hkeys]
  refine ⟨before, start, behind, hkeys, ?_, ?_⟩
  · intro name hname
    have hknown : name ∈ links.keys := by simp [hkeys, hname]
    exact (cycleFrom?_eq_none_iff hclosed hknown).mp (hnone name hname)
  · obtain ⟨_, ⟨hnone, _⟩ | ⟨cycle', hsome, hcycle⟩⟩ := search_cases hclosed hknown
    · rw [hnone] at hstart
      cases hstart
    · rw [hsome] at hstart
      cases hstart
      exact hcycle

/-- A cycle that is entered from outside is reported from the object at which it is entered. -/
example : firstCycle? ⟨[("NiNode", some "NiA"), ("NiA", some "NiB"), ("NiB", some "NiA")],
    by decide⟩ = some ["NiA", "NiB", "NiA"] := by
  decide

/-- Where no cycle is found, the way up from anything leads to the top. -/
theorem exists_ascent (hclosed : links.Closed) (hacyclic : links.firstCycle? = none)
    (name : String) : ∃ above, links.Ascent name above := by
  cases hparent : links.parent? name with
  | none => exact ⟨[], .top hparent⟩
  | some parent =>
    have hname := mem_keys_of_parent? hparent
    have hnone : links.cycleFrom? name = none := List.findSome?_eq_none_iff.mp hacyclic name hname
    obtain ⟨_, ⟨_, habove⟩ | ⟨_, hsome, _⟩⟩ := search_cases hclosed hname
    · exact habove
    · rw [hnone] at hsome
      cases hsome

end ParentLinks

end NifBindings
