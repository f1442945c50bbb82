import NifBindings.OrderedMap
import NifBindings.Diagnostic

/-!
# Hierarchy

The objects of a model with the object that each inherits from. A parent outside the model counts as
none and is reported; a hierarchy in which some object is its own ancestor is refused.
-/

namespace NifBindings

/-- The parent of each object, in order. -/
abbrev ParentLinks := OrderedMap String (Option String)

namespace ParentLinks

/-- The parent of an object. -/
def parent? (links : ParentLinks) (name : String) : Option String :=
  (links.get? name).join

/-- The links whose parents are objects themselves. -/
def resolved (links : ParentLinks) : ParentLinks :=
  links.mapValues (·.filter links.contains)

/-- The findings about parents that are no objects. -/
def unresolved (links : ParentLinks) : List Diagnostic :=
  links.entries.filterMap fun (name, parent?) =>
    (parent?.filter (!links.contains ·)).map (Diagnostic.unresolvedParent name)

/-- The lists of children with one more object in the list of its parent, if that is an object. -/
def addChild (lists : OrderedMap String (List String)) (link : String × Option String) :
    OrderedMap String (List String) :=
  match link.2 with
  | none => lists
  | some parent =>
    match lists.get? parent with
    | none => lists
    | some children => lists.insert parent (children ++ [link.1])

/-- The list of children of each object. The lists are filled in one pass over the objects. -/
def childLists (links : ParentLinks) : OrderedMap String (List String) :=
  links.entries.foldl addChild (links.mapValues fun _ => [])

/-- The children of an object, in order. A name that is no object has none. -/
def children (links : ParentLinks) (name : String) : List String :=
  (links.childLists.get? name).getD []

/-- Follows parents from `next?` until there is none or one of `path` is met, which closes a
cycle. -/
def cycleAlong? (links : ParentLinks) :
    Nat → List String → Option String → Option (List String)
  | 0, _, _ => none
  | _ + 1, _, none => none
  | fuel + 1, path, some name =>
    if name ∈ path then some (path.dropWhile (· ≠ name) ++ [name])
    else cycleAlong? links fuel (path ++ [name]) (links.parent? name)

/-- The cycle that the ancestors of an object run into. No path without repetition is longer than
the links. -/
def cycleFrom? (links : ParentLinks) (start : String) : Option (List String) :=
  links.cycleAlong? links.size [start] (links.parent? start)

/-- The cycle that is met first, objects taken in order. -/
def firstCycle? (links : ParentLinks) : Option (List String) :=
  links.keys.findSome? links.cycleFrom?

/-- The ancestors of an object, nearest first, as far as `fuel` parents up. -/
def ancestorsWithin (links : ParentLinks) : Nat → String → List String
  | 0, _ => []
  | fuel + 1, name =>
    match links.parent? name with
    | none => []
    | some parent => parent :: ancestorsWithin links fuel parent

end ParentLinks

/-- The objects that a walk meets within some steps. Each step takes the first object that waits,
and its children wait in its place. -/
def walkWithin (children : String → List String) : Nat → List String → List String
  | 0, _ => []
  | _ + 1, [] => []
  | steps + 1, name :: waiting =>
    name :: walkWithin children steps (children name ++ waiting)

/-- Resolved parents of which none is its own ancestor, with the children that go with them. -/
structure Hierarchy where
  /-- The parent of each object. -/
  links : ParentLinks
  /-- The children of each object, in order. -/
  childLists : OrderedMap String (List String)
  /-- The children are those of the links. -/
  childLists_eq : childLists = links.childLists
  /-- No object is its own ancestor. -/
  firstCycle?_eq_none : links.firstCycle? = none

namespace Hierarchy

/-- The hierarchy of some links, or the cycle in them. -/
def resolve (links : ParentLinks) : Except (List String) Hierarchy :=
  match h : links.resolved.firstCycle? with
  | none => .ok ⟨links.resolved, links.resolved.childLists, rfl, h⟩
  | some cycle => .error cycle

/-- The number of objects. -/
def size (hierarchy : Hierarchy) : Nat :=
  hierarchy.links.size

/-- The objects in order. -/
def names (hierarchy : Hierarchy) : List String :=
  hierarchy.links.keys

/-- The parent of an object. -/
def parent? (hierarchy : Hierarchy) (name : String) : Option String :=
  hierarchy.links.parent? name

/-- The objects that inherit directly from an object, in order. -/
def children (hierarchy : Hierarchy) (name : String) : List String :=
  (hierarchy.childLists.get? name).getD []

/-- The ancestors of an object, nearest first. -/
def ancestors (hierarchy : Hierarchy) (name : String) : List String :=
  hierarchy.links.ancestorsWithin hierarchy.size name

/-- An object and everything below it, depth first. A name that is no object has nothing below
it. -/
def descendants (hierarchy : Hierarchy) (name : String) : List String :=
  if hierarchy.links.contains name then
    walkWithin hierarchy.children hierarchy.size [name]
  else []

/-- Whether an object is another one or inherits from it. -/
def inheritsFrom (hierarchy : Hierarchy) (name ancestor : String) : Bool :=
  hierarchy.links.contains name &&
    (name == ancestor || (hierarchy.ancestors name).contains ancestor)

/-- The objects without a parent, in order. -/
def roots (hierarchy : Hierarchy) : List String :=
  (hierarchy.links.entries.filter fun entry => entry.2 = none).map Prod.fst

end Hierarchy

end NifBindings
