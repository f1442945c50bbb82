import NifBindings.Proofs.Hierarchy.Walk

/-!
# Resolving links

Links resolve exactly if no object is its own ancestor, and links that do not are refused with the
first cycle in them. Nothing else guards the loops over a hierarchy: they end because every way up
has been climbed once.
-/

namespace NifBindings.Hierarchy

variable {links : ParentLinks} {hierarchy : Hierarchy} {cycle : List String}

/-- A hierarchy consists of resolved links. -/
theorem links_of_resolve (h : resolve links = .ok hierarchy) :
    hierarchy.links = links.resolved := by
  unfold resolve at h
  split at h
  · rw [← Except.ok.inj h]
  · cases h

/-- The parents in a hierarchy are objects. -/
theorem closed_of_resolve (h : resolve links = .ok hierarchy) : hierarchy.links.Closed := by
  rw [links_of_resolve h]
  exact links.closed_resolved

/-- Links resolve exactly if no cycle is found in them. -/
theorem exists_resolve_iff :
    (∃ hierarchy, resolve links = .ok hierarchy) ↔ links.resolved.firstCycle? = none := by
  unfold resolve
  split <;> simp_all

/-- Links are refused with the cycle that is found first. -/
theorem resolve_eq_error_iff :
    resolve links = .error cycle ↔ links.resolved.firstCycle? = some cycle := by
  unfold resolve
  split <;> simp_all

/-- The children that a hierarchy holds are those of its links. -/
theorem children_eq (hierarchy : Hierarchy) (name : String) :
    hierarchy.children name = hierarchy.links.children name := by
  rw [children, hierarchy.childLists_eq]
  rfl

/-- The ancestors of an object are all that stands above it. -/
theorem ascent_ancestors (hclosed : hierarchy.links.Closed) (name : String) :
    hierarchy.links.Ascent name (hierarchy.ancestors name) := by
  obtain ⟨above, habove⟩ :=
    ParentLinks.exists_ascent hclosed hierarchy.firstCycle?_eq_none name
  have hancestors : hierarchy.ancestors name = above := habove.ancestorsWithin_eq habove.length_le
  rwa [hancestors]

/-- No object in a hierarchy is its own ancestor. -/
theorem not_transGen (hclosed : hierarchy.links.Closed) (name : String) :
    ¬Relation.TransGen hierarchy.links.IsParent name name :=
  (ParentLinks.firstCycle?_eq_none_iff hclosed).mp hierarchy.firstCycle?_eq_none name

/-- The tree below an object consists of its descendants. -/
theorem descendants_eq (hclosed : hierarchy.links.Closed) {name : String} {met : List String}
    (hname : name ∈ hierarchy.names) (hmet : hierarchy.links.Preorder [name] met) :
    hierarchy.descendants name = met := by
  have hnodup : met.Nodup := hmet.nodup (not_transGen hclosed) (by simp) (by simp)
  have hkeys : [name] ⊆ hierarchy.links.keys := List.cons_subset.mpr ⟨hname, List.nil_subset _⟩
  have hlength : met.length ≤ hierarchy.size :=
    ParentLinks.length_le_size hnodup (hmet.subset_keys hkeys)
  rw [descendants, if_pos ((OrderedMap.contains_iff_mem_keys ..).mpr hname),
    funext hierarchy.children_eq]
  exact hmet.walkWithin_eq hlength

/-- The descendants of an object are the tree below it. -/
theorem preorder_descendants (hclosed : hierarchy.links.Closed) {name : String}
    (hname : name ∈ hierarchy.names) :
    hierarchy.links.Preorder [name] (hierarchy.descendants name) := by
  obtain ⟨met, hmet⟩ :=
    ParentLinks.exists_preorder hclosed hierarchy.firstCycle?_eq_none [name]
  rwa [descendants_eq hclosed hname hmet]

/-- Nothing stands below a name that is no object. -/
theorem descendants_eq_nil {name : String} (hname : name ∉ hierarchy.names) :
    hierarchy.descendants name = [] :=
  if_neg (mt (OrderedMap.contains_iff_mem_keys ..).mp hname)

/-- Links resolve exactly if no object is its own ancestor. Otherwise they are refused with the
cycle that the first object in order to run into one runs into. The search for cycles ends from
every object, and in a hierarchy the climb to the ancestors and the walk over the descendants end
for every name. -/
theorem resolve_exact (links : ParentLinks) :
    ((∃ hierarchy, resolve links = .ok hierarchy) ↔
      ∀ name, ¬Relation.TransGen links.IsParent name name) ∧
    (∀ cycle, resolve links = .error cycle →
      ∃ before start behind, links.keys = before ++ start :: behind ∧
        (∀ name ∈ before, ¬links.ReachesCycle name) ∧ links.RunsInto start cycle) ∧
    (∀ start ∈ links.keys, ∃ final,
      EndsIn links.resolved.searchStep ([start], links.resolved.parent? start) final ∧
      links.resolved.cycleFrom? start = ParentLinks.closedCycle? final) ∧
    ∀ hierarchy, resolve links = .ok hierarchy → ∀ name,
      EndsIn hierarchy.links.climbStep ([], hierarchy.parent? name)
        (hierarchy.ancestors name, none) ∧
      (name :: hierarchy.ancestors name).Nodup ∧
      (name ∈ hierarchy.names →
        EndsIn hierarchy.links.walkStep ([], [name]) (hierarchy.descendants name, [])) ∧
      (name ∉ hierarchy.names → hierarchy.descendants name = []) := by
  have hclosed := links.closed_resolved
  refine ⟨?_, ?_, ?_, ?_⟩
  · rw [exists_resolve_iff, ParentLinks.firstCycle?_eq_none_iff hclosed,
      ParentLinks.isParent_resolved]
  · intro cycle hcycle
    have hfound := ParentLinks.exists_of_firstCycle?_eq_some hclosed
      (resolve_eq_error_iff.mp hcycle)
    rwa [ParentLinks.keys_resolved, ParentLinks.reachesCycle_resolved,
      ParentLinks.runsInto_resolved] at hfound
  · intro start hstart
    rw [← ParentLinks.keys_resolved] at hstart
    exact (ParentLinks.search_cases hclosed hstart).1
  · intro hierarchy hok name
    have hclosed := closed_of_resolve hok
    have habove := ascent_ancestors hclosed name
    refine ⟨habove.endsIn_climbStep [], habove.nodup, ?_, descendants_eq_nil⟩
    intro hname
    exact (preorder_descendants hclosed hname).endsIn_walkStep

end NifBindings.Hierarchy
