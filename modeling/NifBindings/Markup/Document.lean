import NifBindings.Text.Blank
import NifBindings.Markup.Element
import NifBindings.Markup.Token

/-!
# Documents

A document is read from the tokens of its text with a stack of open elements. The last element that
was completed outside all others is the root; its version and its children are the document.
-/

namespace NifBindings

open Markup

/-- The attributes that the assignments of a tag give, with their references resolved. -/
def Attributes.ofAssignments (assignments : List (List Char × List Char)) :
    Except InputError Attributes :=
  assignments.foldlM (fun attributes (key, value) => do
    let resolved ← (resolve value).mapError .reference
    .ok (attributes.insert (String.ofList key) (String.ofList resolved))) OrderedMap.empty

/-- The element that a tag opens, without text and children. -/
def Element.ofTag (tag : Tag) : Except InputError Element := do
  let attributes ← Attributes.ofAssignments tag.assignments
  .ok ⟨String.ofList tag.name, attributes, "", []⟩

/-- An element with more text, which it only takes in front of its first child. -/
def Element.addText (element : Element) (text : List Char) : Element :=
  if element.children.isEmpty then
    { element with text := element.text ++ String.ofList text }
  else element

/-- An element with one more child. -/
def Element.addChild (element child : Element) : Element :=
  { element with children := element.children ++ [child] }

/-- The open elements while a text is read, innermost first, and the last element completed outside
all others. -/
structure OpenElements where
  stack : List Element := []
  root? : Option Element := none

namespace OpenElements

/-- Puts a completed element into the innermost open one, or makes it the root. -/
def complete (state : OpenElements) (element : Element) : OpenElements :=
  match state.stack with
  | [] => { state with root? := some element }
  | parent :: outer => { state with stack := parent.addChild element :: outer }

/-- Closes the innermost element, whose name must be the one given and whose text is trimmed. -/
def close (state : OpenElements) (name : List Char) : Except InputError OpenElements :=
  match state.stack with
  | [] => .error (.markup (.form (.unmatchedEnd (String.ofList name))))
  | element :: outer =>
    if String.ofList name = element.tag then
      .ok (complete { state with stack := outer }
        { element with text := Text.trim element.text })
    else .error (.markup (.form (.mismatchedEnd element.tag (String.ofList name))))

/-- Reads one token. References count only where text does. -/
def read (state : OpenElements) (token : Token) : Except InputError OpenElements :=
  match token with
  | .opening tag => do
    let element ← Element.ofTag tag
    .ok { state with stack := element :: state.stack }
  | .void tag => do
    let element ← Element.ofTag tag
    .ok (state.complete element)
  | .closing name => state.close name
  | .text content =>
    match state.stack with
    | [] => .ok state
    | element :: outer => .ok { state with stack := element.addText content :: outer }
  | .reference name =>
    match state.stack with
    | [] => .ok state
    | element :: outer =>
      if element.children.isEmpty then do
        let resolved ← (resolve ('&' :: name ++ [';'])).mapError .reference
        .ok { state with stack := element.addText resolved :: outer }
      else .ok state

end OpenElements

/-- A schema document: its version and the elements inside its root. -/
structure Document where
  /-- The version attribute of the root. -/
  version : Option String
  /-- The entries in order. -/
  entries : List Element

/-- The document with this root. -/
def Document.ofRoot (root : Element) : Document :=
  ⟨root.get? "version", root.children⟩

/-- Reads a document. The first fault decides, be it one of the text or of the tokens in front of
it. -/
def Document.parse (text : String) : Except InputError Document := do
  let (tokens, fault?) := scanText text.toList
  let state ← tokens.foldlM OpenElements.read {}
  match fault?, state.root? with
  | some fault, _ => .error (.markup fault)
  | none, some root => .ok (Document.ofRoot root)
  | none, none => .error .noRootElement

end NifBindings
