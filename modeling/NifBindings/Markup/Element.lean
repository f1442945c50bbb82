import NifBindings.OrderedMap
import NifBindings.InputError

/-!
# Elements

An element has a tag, attributes in order, the text in front of its first child, and its children.
-/

namespace NifBindings

/-- The values of the attributes of an element, in order. -/
abbrev Attributes := OrderedMap String String

/-- The value of an attribute that the element must have. -/
def Attributes.require (attributes : Attributes) (element key : String) :
    Except InputError String :=
  match attributes.get? key with
  | some value => .ok value
  | none => .error (.missingAttribute element key)

/-- A node of a document. -/
structure Element where
  /-- The name of the element. -/
  tag : String
  /-- Its attributes. -/
  attributes : Attributes
  /-- The text in front of the first child. -/
  text : String
  /-- The elements inside it. -/
  children : List Element
deriving Inhabited

namespace Element

/-- The value of an attribute. -/
def get? (element : Element) (key : String) : Option String :=
  element.attributes.get? key

/-- The value of an attribute that the element must have. -/
def require (element : Element) (key : String) : Except InputError String :=
  element.attributes.require element.tag key

/-- A required attribute has the value that it has. -/
theorem require_eq_ok_iff {element : Element} {key value : String} :
    element.require key = .ok value ↔ element.get? key = some value := by
  unfold require Attributes.require get?
  cases element.attributes.get? key <;> simp

end Element

end NifBindings
