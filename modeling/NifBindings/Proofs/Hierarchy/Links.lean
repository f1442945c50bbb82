import Mathlib.Data.List.Chain
import Mathlib.Logic.Relation
import NifBindings.Hierarchy

/-!
# Parent links

An object may inherit from another object of the same links, and from no more than one. Links that
are resolved lead to objects only, and they list the children of each object in its order.
-/

namespace NifBindings.ParentLinks

/-- An object inherits from another one, which is an object as well. -/
def IsParent (links : ParentLinks) (child parent : String) : Prop :=
  links.parent? child = some parent ∧ parent ∈ links.keys

/-- Every parent is an object. -/
def Closed (links : ParentLinks) : Prop :=
  ∀ child parent : String, links.parent? child = some parent → parent ∈ links.keys

/-- An object runs into a cycle if it or one of its ancestors is its own ancestor. -/
def ReachesCycle (links : ParentLinks) (name : String) : Prop :=
  ∃ other, Relation.ReflTransGen links.IsParent name other ∧
    Relation.TransGen links.IsParent other other

/-- From an object the parents lead, over a way outside it at first, into a cycle. This is listed
once round, from the object at which it is entered back to the same one. -/
def RunsInto (links : ParentLinks) (start : String) (cycle : List String) : Prop :=
  ∃ tail first rest, cycle = first :: rest ++ [first] ∧ (tail ++ first :: rest).Nodup ∧
    (tail ++ cycle).IsChain links.IsParent ∧ (tail ++ cycle).head? = some start

variable {links : ParentLinks} {name child parent : String}

/-- Something with a parent is an object. -/
theorem mem_keys_of_parent? (h : links.parent? child = some parent) : child ∈ links.keys := by
  have hvalue := Option.join_eq_some_iff.mp h
  exact List.mem_map.mpr ⟨_, OrderedMap.get?_eq_some_iff.mp hvalue, rfl⟩

/-- An object has one parent at most. -/
theorem IsParent.unique {other : String} (h : links.IsParent child parent)
    (hother : links.IsParent child other) : parent = other :=
  Option.some.inj (h.1.symm.trans hother.1)

/-- Where every parent is an object, inheriting is having it as the parent. -/
theorem Closed.isParent_iff (hclosed : links.Closed) :
    links.IsParent child parent ↔ links.parent? child = some parent :=
  ⟨fun h => h.1, fun h => ⟨h, hclosed child parent h⟩⟩

/-- Resolving links keeps the objects. -/
@[simp] theorem keys_resolved (links : ParentLinks) : links.resolved.keys = links.keys := by
  simp [resolved, OrderedMap.mapValues, OrderedMap.keys, Function.comp_def]

/-- The parents of resolved links are those that are objects. -/
theorem parent?_resolved_eq_some_iff :
    links.resolved.parent? child = some parent ↔ links.IsParent child parent := by
  unfold parent? resolved IsParent
  rw [OrderedMap.get?_mapValues, ← OrderedMap.contains_iff_mem_keys]
  cases hvalue : links.get? child with
  | none => simp [parent?, hvalue]
  | some value => simp [parent?, hvalue, Option.filter_eq_some_iff]

/-- Resolved links lead to objects. -/
theorem closed_resolved (links : ParentLinks) : links.resolved.Closed := by
  intro child parent h
  rw [keys_resolved]
  exact (parent?_resolved_eq_some_iff.mp h).2

/-- Resolving links keeps who inherits from whom. -/
theorem isParent_resolved : links.resolved.IsParent = links.IsParent := by
  funext child parent
  rw [(closed_resolved links).isParent_iff, parent?_resolved_eq_some_iff]

/-- Resolving links keeps what runs into a cycle. -/
theorem reachesCycle_resolved : links.resolved.ReachesCycle = links.ReachesCycle := by
  funext name
  unfold ReachesCycle
  rw [isParent_resolved]

/-- Resolving links keeps which cycle is run into. -/
theorem runsInto_resolved : links.resolved.RunsInto = links.RunsInto := by
  funext start cycle
  unfold RunsInto
  rw [isParent_resolved]

/-- An object is listed with its parent. -/
theorem parent?_of_mem_entries {entry : String × Option String} (h : entry ∈ links.entries) :
    links.parent? entry.1 = entry.2 := by
  rw [parent?, OrderedMap.get?_eq_some_iff.mpr h]
  rfl

/-- Objects chosen by their parent keep their order. -/
theorem map_fst_filter (links : ParentLinks) (p : Option String → Bool) :
    (links.entries.filter fun entry => p entry.2).map Prod.fst =
      links.keys.filter fun name => p (links.parent? name) := by
  rw [OrderedMap.keys, List.filter_map]
  congr 1
  apply List.filter_congr
  intro entry hentry
  rw [Function.comp_apply, parent?_of_mem_entries hentry]

/-- One more object changes the list of its parent only, where it comes last. -/
theorem get?_addChild (lists : OrderedMap String (List String)) (link : String × Option String)
    (name : String) :
    (addChild lists link).get? name = (lists.get? name).map fun children =>
      children ++ if link.2 = some name then [link.1] else [] := by
  obtain ⟨child, parent?⟩ := link
  cases parent? with
  | none => simp [addChild]
  | some parent =>
    simp only [addChild]
    cases hlist : lists.get? parent with
    | none =>
      by_cases hname : parent = name
      · simp [← hname, hlist]
      · simp [hname]
    | some children =>
      by_cases hname : parent = name
      · simp [OrderedMap.get?_insert, ← hname, hlist]
      · simp [OrderedMap.get?_insert, hname]

/-- Behind some objects, each list has those of them with its object as their parent. -/
theorem get?_foldl_addChild (lists : OrderedMap String (List String))
    (entries : List (String × Option String)) (name : String) :
    (entries.foldl addChild lists).get? name = (lists.get? name).map fun children =>
      children ++ (entries.filter fun entry => entry.2 = some name).map Prod.fst := by
  induction entries generalizing lists with
  | nil => simp
  | cons entry entries ih =>
    rw [List.foldl_cons, ih, get?_addChild, Option.map_map]
    congr 1
    funext children
    by_cases hparent : entry.2 = some name <;> simp [hparent]

/-- The children of an object are the objects with it as their parent, in order. -/
theorem children_eq_filter (hname : name ∈ links.keys) :
    links.children name = links.keys.filter fun child => links.parent? child = some name := by
  rw [← OrderedMap.contains_iff_mem_keys, OrderedMap.contains, Option.isSome_iff_exists] at hname
  obtain ⟨parent?, hparent⟩ := hname
  rw [children, childLists, get?_foldl_addChild, OrderedMap.get?_mapValues, hparent,
    Option.map_some, Option.map_some, Option.getD_some, List.nil_append]
  exact links.map_fst_filter fun parent? => parent? = some name

/-- A name that is no object has no children. -/
theorem children_eq_nil (hname : name ∉ links.keys) : links.children name = [] := by
  rw [← OrderedMap.contains_iff_mem_keys, OrderedMap.contains, Bool.not_eq_true,
    Option.isSome_eq_false_iff, Option.isNone_iff_eq_none] at hname
  rw [children, childLists, get?_foldl_addChild, OrderedMap.get?_mapValues, hname]
  rfl

/-- Something is a child of an object exactly if it inherits from it. -/
theorem mem_children_iff : child ∈ links.children name ↔ links.IsParent child name := by
  by_cases hname : name ∈ links.keys
  · rw [children_eq_filter hname, List.mem_filter, decide_eq_true_iff]
    exact ⟨fun h => ⟨h.2, hname⟩, fun h => ⟨mem_keys_of_parent? h.1, h.1⟩⟩
  · rw [children_eq_nil hname]
    exact ⟨nofun, fun h => absurd h.2 hname⟩

/-- Where every parent is an object, this holds of names that are no objects, too. -/
theorem Closed.children_eq_filter (hclosed : links.Closed) (name : String) :
    links.children name = links.keys.filter fun child => links.parent? child = some name := by
  by_cases hname : name ∈ links.keys
  · exact ParentLinks.children_eq_filter hname
  · rw [children_eq_nil hname]
    refine (List.filter_eq_nil_iff.mpr fun child _ hchild => hname ?_).symm
    exact hclosed child name (decide_eq_true_iff.mp hchild)

/-- What runs into a cycle has a parent. -/
theorem ReachesCycle.exists_isParent (h : links.ReachesCycle name) :
    ∃ parent, links.IsParent name parent := by
  obtain ⟨other, hreach, hcycle⟩ := h
  rcases Relation.ReflTransGen.cases_head hreach with rfl | ⟨parent, hparent, _⟩
  · obtain ⟨parent, hparent, _⟩ := Relation.TransGen.head'_iff.mp hcycle
    exact ⟨parent, hparent⟩
  · exact ⟨parent, hparent⟩

/-- Running into a cycle is passed on from parent to child and back. -/
theorem IsParent.reachesCycle_iff (h : links.IsParent child parent) :
    links.ReachesCycle child ↔ links.ReachesCycle parent := by
  constructor
  · rintro ⟨other, hreach, hcycle⟩
    rcases Relation.ReflTransGen.cases_head hreach with rfl | ⟨next, hnext, hreach⟩
    · -- The cycle through the child begins with its parent.
      obtain ⟨next, hnext, hback⟩ := Relation.TransGen.head'_iff.mp hcycle
      rw [hnext.unique h] at hback
      exact ⟨_, hback, hcycle⟩
    · rw [hnext.unique h] at hreach
      exact ⟨other, hreach, hcycle⟩
  · rintro ⟨other, hreach, hcycle⟩
    exact ⟨other, hreach.head h, hcycle⟩

end NifBindings.ParentLinks
