import NifBindings.Markup.Document
import NifBindings.Proofs.Basic

/-!
# Complete documents

A document is complete if its text has one element, closed, and no other tag. Reading asks for less:
the tags must fit together, and one element must be completed outside all others. The last such
element is the one that counts. Others may stand in front of it, and elements behind it may be left
open, so that two texts that were joined, or a text that was cut off, can pass for a document.
-/

namespace NifBindings

namespace Markup

/-- Whether a token is a tag. -/
def Token.isTag : Token → Bool
  | .text _ => false
  | .reference _ => false
  | .opening _ => true
  | .void _ => true
  | .closing _ => true

/-- Whether there is no tag among some tokens. -/
def IsTagless (tokens : List Token) : Prop :=
  ∀ token ∈ tokens, token.isTag = false

/-- Whether some tokens are elements one behind the other, perhaps with text around and inside
them. -/
inductive IsContent : List Token → Prop
  | nil : IsContent []
  | plain {token : Token} {tokens : List Token} (htoken : token.isTag = false)
      (h : IsContent tokens) : IsContent (token :: tokens)
  | void {tag : Tag} {tokens : List Token} (h : IsContent tokens) : IsContent (.void tag :: tokens)
  | pair {tag : Tag} {inside tokens : List Token} (hinside : IsContent inside)
      (h : IsContent tokens) : IsContent (.opening tag :: inside ++ .closing tag.name :: tokens)

/-- Whether some tokens are one element. -/
inductive IsElement : List Token → Prop
  | void {tag : Tag} : IsElement [.void tag]
  | pair {tag : Tag} {inside : List Token} (hinside : IsContent inside) :
      IsElement (.opening tag :: inside ++ [.closing tag.name])

/-- Whether some tokens leave elements with these names open, innermost first, and complete no
element outside all others. -/
inductive LeavesOpen : List String → List Token → Prop
  | nothing {tokens : List Token} (h : IsTagless tokens) : LeavesOpen [] tokens
  | inside {tag : Tag} {names : List String} {outer content : List Token}
      (h : LeavesOpen names outer) (hcontent : IsContent content) :
      LeavesOpen (String.ofList tag.name :: names) (outer ++ .opening tag :: content)

variable {tag : Tag} {token : Token} {tokens front behind : List Token} {name : List Char}
  {names : List String}

/-- Tokens without tags are content. -/
theorem IsTagless.isContent (h : IsTagless tokens) : IsContent tokens := by
  induction tokens with
  | nil => exact .nil
  | cons token tokens ih =>
    obtain ⟨htoken, h⟩ := List.forall_mem_cons.mp h
    exact .plain htoken (ih h)

/-- Content behind content is content. -/
theorem IsContent.append (h : IsContent tokens) (hbehind : IsContent behind) :
    IsContent (tokens ++ behind) := by
  induction h with
  | nil => exact hbehind
  | plain htoken _ ih => exact .plain htoken ih
  | void _ ih => exact .void ih
  | pair hinside _ _ ih =>
    rw [List.append_assoc]
    exact .pair hinside ih

/-- An element is content. -/
theorem IsElement.isContent (h : IsElement tokens) : IsContent tokens := by
  cases h with
  | void => exact .void .nil
  | pair hinside => exact .pair hinside .nil

namespace LeavesOpen

/-- Content changes nothing while an element is open. -/
theorem append {name : String} (h : LeavesOpen (name :: names) tokens)
    (hbehind : IsContent behind) : LeavesOpen (name :: names) (tokens ++ behind) := by
  cases h with
  | inside h hcontent =>
    rw [List.append_assoc]
    exact .inside h (hcontent.append hbehind)

/-- A token that is no tag changes nothing. -/
theorem plain (h : LeavesOpen names tokens) (htoken : token.isTag = false) :
    LeavesOpen names (tokens ++ [token]) := by
  cases names with
  | nil =>
    cases h with
    | nothing h =>
      exact .nothing (List.forall_mem_append.mpr ⟨h, List.forall_mem_singleton.mpr htoken⟩)
  | cons name names => exact h.append (.plain htoken .nil)

/-- The tag that closes the innermost open element completes it. -/
theorem exists_element (h : LeavesOpen (String.ofList name :: names) tokens) :
    ∃ outer element, tokens ++ [.closing name] = outer ++ element ∧ LeavesOpen names outer ∧
      IsElement element := by
  generalize hname : String.ofList name = last at h
  cases h with
  | inside h hcontent =>
    cases String.ofList_injective hname
    exact ⟨_, _, by rw [List.append_assoc], h, .pair hcontent⟩

end LeavesOpen

/-- The number of elements that some tokens begin outside all others, if `depth` elements are open
in front of them. -/
def begun (depth : Nat) : List Token → Nat
  | [] => 0
  | .text _ :: tokens => begun depth tokens
  | .reference _ :: tokens => begun depth tokens
  | .opening _ :: tokens => (if depth = 0 then 1 else 0) + begun (depth + 1) tokens
  | .void _ :: tokens => (if depth = 0 then 1 else 0) + begun depth tokens
  | .closing _ :: tokens => begun (depth - 1) tokens

/-- A token that is no tag begins no element. -/
theorem begun_cons_of_not_isTag {depth : Nat} (htoken : token.isTag = false) :
    begun depth (token :: tokens) = begun depth tokens := by
  cases token with
  | text | reference => rfl
  | opening | void | closing => cases htoken

/-- Tokens without tags begin no element. -/
theorem IsTagless.begun_append {depth : Nat} (h : IsTagless tokens) :
    begun depth (tokens ++ behind) = begun depth behind := by
  induction tokens with
  | nil => rfl
  | cons token tokens ih =>
    obtain ⟨htoken, h⟩ := List.forall_mem_cons.mp h
    rw [List.cons_append, begun_cons_of_not_isTag htoken, ih h]

/-- Content of an element begins no element outside all others. -/
theorem IsContent.begun_append_inside {depth : Nat} (h : IsContent tokens) :
    begun (depth + 1) (tokens ++ behind) = begun (depth + 1) behind := by
  induction h generalizing depth behind with
  | nil => rfl
  | plain htoken _ ih => rw [List.cons_append, begun_cons_of_not_isTag htoken, ih]
  | void _ ih => simp [begun, ih]
  | pair _ _ ihinside ih => simp [begun, ihinside, ih]

/-- Behind content outside all elements, elements are counted anew. -/
theorem IsContent.begun_append (h : IsContent tokens) :
    begun 0 (tokens ++ behind) = begun 0 tokens + begun 0 behind := by
  induction h with
  | nil => simp [begun]
  | plain htoken _ ih =>
    rw [List.cons_append, begun_cons_of_not_isTag htoken, begun_cons_of_not_isTag htoken, ih]
  | void _ ih => simp [begun, ih, Nat.add_assoc]
  | pair hinside _ _ ih => simp [begun, hinside.begun_append_inside, ih, Nat.add_assoc]

/-- One element begins one element. -/
theorem IsElement.begun_eq (h : IsElement tokens) : begun 0 tokens = 1 := by
  cases h with
  | void => rfl
  | pair hinside => simp [begun, hinside.begun_append_inside]

/-- Content that begins no element has no tags. -/
theorem IsContent.isTagless (h : IsContent tokens) (hbegun : begun 0 tokens = 0) :
    IsTagless tokens := by
  induction h with
  | nil => exact List.forall_mem_nil _
  | plain htoken _ ih =>
    rw [begun_cons_of_not_isTag htoken] at hbegun
    exact List.forall_mem_cons.mpr ⟨htoken, ih hbegun⟩
  | void => simp [begun] at hbegun
  | pair => simp [begun] at hbegun

/-- Tokens that leave elements open begin the outermost of them. -/
theorem LeavesOpen.begun_append (h : LeavesOpen names tokens) :
    begun 0 (tokens ++ behind) = (if names = [] then 0 else 1) + begun names.length behind := by
  induction h generalizing behind with
  | nothing h => simp [h.begun_append]
  | @inside tag names outer content _ hcontent ih =>
    rw [List.append_assoc, ih, List.cons_append, begun, hcontent.begun_append_inside]
    cases names <;> simp

/-- Tokens that begin no element and leave open what they begin have no tags. -/
theorem LeavesOpen.isTagless (h : LeavesOpen names tokens) (hbegun : begun 0 tokens = 0) :
    IsTagless tokens := by
  have hcount : begun 0 (tokens ++ []) = _ := h.begun_append
  rw [List.append_nil, hbegun] at hcount
  cases h with
  | nothing h => exact h
  | inside =>
    rw [if_neg (List.cons_ne_nil _ _)] at hcount
    omega

end Markup

open Markup

/-- An element has the name of the tag that opens it. -/
theorem Element.tag_of_ofTag {tag : Tag} {element : Element} (h : ofTag tag = .ok element) :
    element.tag = String.ofList tag.name := by
  obtain ⟨attributes, -, h⟩ := bind_eq_ok_iff.mp h
  cases h
  rfl

/-- Text leaves the name of an element alone. -/
theorem Element.tag_addText (element : Element) (content : List Char) :
    (element.addText content).tag = element.tag := by
  unfold addText
  split <;> rfl

namespace OpenElements

variable {token : Token} {tokens opened outer front : List Token} {stack : List Element}
  {root? : Option Element} {state next final : OpenElements}

/-- Tags apart, reading changes neither the names of the open elements nor the root. -/
theorem read_of_not_isTag (htoken : token.isTag = false) (h : state.read token = .ok next) :
    next.stack.map Element.tag = state.stack.map Element.tag ∧ next.root? = state.root? := by
  obtain ⟨stack, root?⟩ := state
  cases token with
  | opening | void | closing => cases htoken
  | text content =>
    cases stack <;> cases h
    · exact ⟨rfl, rfl⟩
    · exact ⟨by rw [List.map_cons, List.map_cons, Element.tag_addText], rfl⟩
  | reference name =>
    cases stack with
    | nil =>
      cases h
      exact ⟨rfl, rfl⟩
    | cons element stack =>
      simp only [read] at h
      split at h
      · obtain ⟨resolved, -, h⟩ := bind_eq_ok_iff.mp h
        cases h
        exact ⟨by rw [List.map_cons, List.map_cons, Element.tag_addText], rfl⟩
      · cases h
        exact ⟨rfl, rfl⟩

/-- Outside all elements, only tags are read. -/
theorem foldlM_append_of_isTagless (h : IsTagless front) :
    (front ++ tokens).foldlM read ⟨[], root?⟩ = tokens.foldlM read ⟨[], root?⟩ := by
  induction front with
  | nil => rfl
  | cons token front ih =>
    obtain ⟨htoken, h⟩ := List.forall_mem_cons.mp h
    have hread : read ⟨[], root?⟩ token = .ok ⟨[], root?⟩ := by
      cases token with
      | text | reference => rfl
      | opening | void | closing => cases htoken
    rw [List.cons_append, List.foldlM_cons, hread]
    exact ih h

/-- The same open elements, with a root that an earlier text gave unless there is a newer one. -/
def behindRoot (state : OpenElements) (root? : Option Element) : OpenElements :=
  { state with root? := state.root?.or root? }

/-- An element is completed in the same way behind an earlier root. -/
theorem complete_behindRoot (state : OpenElements) (root? : Option Element) (element : Element) :
    (state.behindRoot root?).complete element = (state.complete element).behindRoot root? := by
  obtain ⟨stack, own?⟩ := state
  cases stack <;> rfl

/-- A token is read in the same way behind an earlier root. -/
theorem read_behindRoot (state : OpenElements) (root? : Option Element) (token : Token) :
    (state.behindRoot root?).read token = (state.read token).map (behindRoot · root?) := by
  obtain ⟨stack, own?⟩ := state
  cases token with
  | text content => cases stack <;> rfl
  | reference name =>
    cases stack with
    | nil => rfl
    | cons element stack =>
      simp only [read, behindRoot]
      split
      · cases (resolve ('&' :: name ++ [';'])).mapError InputError.reference <;> rfl
      · rfl
  | opening tag =>
    simp only [read]
    cases Element.ofTag tag <;> rfl
  | void tag =>
    simp only [read]
    cases Element.ofTag tag with
    | error => rfl
    | ok element => exact congrArg Except.ok (complete_behindRoot ⟨stack, own?⟩ root? element)
  | closing name =>
    cases stack with
    | nil => rfl
    | cons element stack =>
      simp only [read, close, behindRoot]
      split
      · exact congrArg Except.ok (complete_behindRoot ⟨stack, own?⟩ root? _)
      · rfl

/-- Tokens are read in the same way behind an earlier root. -/
theorem foldlM_behindRoot (state : OpenElements) (root? : Option Element) (tokens : List Token) :
    tokens.foldlM read (state.behindRoot root?) =
      (tokens.foldlM read state).map (behindRoot · root?) := by
  induction tokens generalizing state with
  | nil => rfl
  | cons token tokens ih =>
    rw [List.foldlM_cons, List.foldlM_cons, read_behindRoot]
    cases state.read token with
    | error => rfl
    | ok next => exact ih next

/-- What is open behind some tokens: either they leave it open, or an element outside all others
was just completed. -/
def IsOpenOrComplete (tokens : List Token) (state : OpenElements) : Prop :=
  (state.root? = none ∧ LeavesOpen (state.stack.map Element.tag) tokens) ∨
    ∃ front element root, tokens = front ++ element ∧ IsTagless front ∧ IsElement element ∧
      state = ⟨[], some root⟩

/-- The tokens of an element complete it. -/
theorem isOpenOrComplete_complete {element : List Token}
    (h : LeavesOpen (stack.map Element.tag) outer) (helement : IsElement element)
    (completed : Element) :
    IsOpenOrComplete (outer ++ element) (complete ⟨stack, none⟩ completed) := by
  cases stack with
  | nil =>
    cases h with
    | nothing h => exact .inr ⟨outer, element, completed, rfl, h, helement, rfl⟩
  | cons parent stack => exact .inl ⟨rfl, h.append helement.isContent⟩

/-- One more token leaves an element open or completes one. -/
theorem isOpenOrComplete_read (h : LeavesOpen (stack.map Element.tag) opened)
    (hread : read ⟨stack, none⟩ token = .ok next) :
    IsOpenOrComplete (opened ++ [token]) next := by
  cases htoken : token.isTag with
  | false =>
    obtain ⟨hstack, hroot⟩ := read_of_not_isTag htoken hread
    exact .inl ⟨hroot, hstack ▸ h.plain htoken⟩
  | true =>
    cases token with
    | text | reference => cases htoken
    | opening tag =>
      obtain ⟨element, helement, hread⟩ := bind_eq_ok_iff.mp hread
      cases hread
      refine .inl ⟨rfl, ?_⟩
      rw [List.map_cons, Element.tag_of_ofTag helement]
      exact .inside h .nil
    | void tag =>
      obtain ⟨element, -, hread⟩ := bind_eq_ok_iff.mp hread
      cases hread
      exact isOpenOrComplete_complete h .void element
    | closing name =>
      cases stack with
      | nil => cases hread
      | cons last stack =>
        simp only [read, close] at hread
        split at hread
        next hname =>
          cases hread
          rw [List.map_cons, ← hname] at h
          obtain ⟨outer, element, htokens, houter, helement⟩ := h.exists_element
          rw [htokens]
          exact isOpenOrComplete_complete houter helement _
        next => cases hread

/-- Whether some tokens have a form and, read on their own, lead to this state. -/
structure ReadsAs (form : List Token → Prop) (state : OpenElements) (tokens : List Token) :
    Prop where
  form : form tokens
  read_eq : tokens.foldlM read {} = .ok state

/-- Whether some tokens, read on their own, leave these elements open and complete none outside of
them. -/
def Opens (stack : List Element) : List Token → Prop :=
  ReadsAs (LeavesOpen (stack.map Element.tag)) ⟨stack, none⟩

/-- Whether some tokens are one element, which is read as this root. -/
def IsRoot (root : Element) : List Token → Prop :=
  ReadsAs IsElement ⟨[], some root⟩

/-- What is read behind content is read in the same way on its own. -/
theorem ReadsAs.foldlM_append {form form' : List Token → Prop} {last? : Option Element}
    (h : ReadsAs form ⟨[], root?⟩ front) (hbehind : ReadsAs form' ⟨stack, last?⟩ tokens) :
    (front ++ tokens).foldlM OpenElements.read {} = .ok ⟨stack, last?.or root?⟩ := by
  rw [List.foldlM_append, h.read_eq]
  refine (foldlM_behindRoot {} root? tokens).trans ?_
  rw [hbehind.read_eq]
  rfl

/-- What the tokens read so far are: those of the elements left open and, if there is a root, its
own in front of them, behind any content. -/
inductive HasRead : List Token → OpenElements → Prop
  | rootless {opened : List Token} {stack : List Element} (hopened : Opens stack opened) :
      HasRead opened ⟨stack, none⟩
  | rooted {before element opened : List Token} {earlier? : Option Element} {root : Element}
      {stack : List Element} (hbefore : ReadsAs IsContent ⟨[], earlier?⟩ before)
      (helement : IsRoot root element) (hopened : Opens stack opened) :
      HasRead (before ++ element ++ opened) ⟨stack, some root⟩

/-- Nothing is open in the beginning. -/
theorem Opens.nil : Opens [] [] where
  form := .nothing (List.forall_mem_nil _)
  read_eq := rfl

/-- Outside all elements, tokens without tags are content that changes nothing. -/
theorem readsAs_of_isTagless (h : IsTagless front) : ReadsAs IsContent {} front where
  form := h.isContent
  read_eq := by
    rw [← List.append_nil front, foldlM_append_of_isTagless h]
    rfl

/-- One more token leaves more or less open, or completes an element outside all others, which is
the root that is read from its own tokens. -/
theorem Opens.read (h : Opens stack opened) (hread : read ⟨stack, none⟩ token = .ok next) :
    (next.root? = none ∧ Opens next.stack (opened ++ [token])) ∨
      ∃ front element root, opened ++ [token] = front ++ element ∧ IsTagless front ∧
        IsRoot root element ∧ next = ⟨[], some root⟩ := by
  have hall : (opened ++ [token]).foldlM OpenElements.read {} = .ok next := by
    rw [List.foldlM_append, h.read_eq]
    exact (bind_pure _).trans hread
  rcases isOpenOrComplete_read h.form hread with
    ⟨hroot, hopen⟩ | ⟨front, element, root, htokens, hfront, helement, rfl⟩
  · obtain ⟨stack, root?⟩ := next
    cases hroot
    exact .inl ⟨rfl, hopen, hall⟩
  · rw [htokens, foldlM_append_of_isTagless hfront] at hall
    exact .inr ⟨front, element, root, htokens, hfront, ⟨helement, hall⟩, rfl⟩

/-- What the tokens are is known behind each of them. -/
theorem HasRead.read (h : HasRead tokens state) (hread : state.read token = .ok next) :
    HasRead (tokens ++ [token]) next := by
  obtain ⟨stack, root?⟩ := state
  obtain ⟨fresh, hfresh, rfl⟩ :=
    map_eq_ok_iff.mp ((read_behindRoot ⟨stack, none⟩ root? token).symm.trans hread)
  cases h with
  | rootless hopened =>
    rcases hopened.read hfresh with
      ⟨hroot, hopened⟩ | ⟨front, element, root, htokens, hfront, helement, rfl⟩
    · obtain ⟨stack, root?⟩ := fresh
      cases hroot
      exact .rootless hopened
    · rw [htokens, ← List.append_nil (front ++ element)]
      exact .rooted (readsAs_of_isTagless hfront) helement .nil
  | @rooted before last opened _ _ _ hbefore hlast hopened =>
    rcases hopened.read hfresh with
      ⟨hroot, hopened⟩ | ⟨front, element, root, htokens, hfront, helement, rfl⟩
    · obtain ⟨stack, root?⟩ := fresh
      cases hroot
      rw [List.append_assoc]
      exact .rooted hbefore hlast hopened
    · have hbehind : before ++ last ++ opened ++ [token] =
          before ++ last ++ front ++ element ++ [] := by
        rw [List.append_assoc, htokens, List.append_nil, List.append_assoc _ front]
      -- The former root is content in front of the new one.
      have hpassed : ReadsAs IsContent _ (before ++ last) :=
        ⟨hbefore.form.append hlast.form.isContent, hbefore.foldlM_append hlast⟩
      have hplain := readsAs_of_isTagless hfront
      rw [hbehind]
      exact .rooted ⟨hpassed.form.append hplain.form, hpassed.foldlM_append hplain⟩ helement .nil

/-- What the tokens are is known behind all of them. -/
theorem HasRead.foldlM {done : List Token} (h : HasRead done state)
    (hread : tokens.foldlM OpenElements.read state = .ok final) :
    HasRead (done ++ tokens) final := by
  induction tokens generalizing done state with
  | nil =>
    cases hread
    rwa [List.append_nil]
  | cons token tokens ih =>
    rw [List.foldlM_cons] at hread
    obtain ⟨next, hnext, hread⟩ := bind_eq_ok_iff.mp hread
    have hall := ih (h.read hnext) hread
    rwa [List.append_assoc] at hall

end OpenElements

open OpenElements

/-- Whether a text has one element, closed, with no tags around it, and a document is what is read
from this element. -/
def Document.IsComplete (document : Document) (text : String) : Prop :=
  ∃ front element back root, scanText text.toList = (front ++ element ++ back, none) ∧
    IsTagless front ∧ IsRoot root element ∧ IsTagless back ∧ document = ofRoot root

/-- A complete text begins one element outside all others. -/
theorem Document.IsComplete.begun_eq {document : Document} {text : String}
    (h : document.IsComplete text) : begun 0 (scanText text.toList).1 = 1 := by
  obtain ⟨front, element, back, root, hscan, hfront, helement, hback, -⟩ := h
  have hnone : begun 0 back = 0 := by
    rw [← List.append_nil back, hback.begun_append, begun]
  rw [hscan, List.append_assoc, hfront.begun_append, helement.form.isContent.begun_append,
    helement.form.begun_eq, hnone]

/-- How a text from which a document is read is made up: the last element that is completed outside
all others is its root. -/
structure Document.Division (document : Document) (text : String) where
  /-- The elements in front of the root, with any text around them. -/
  before : List Token
  /-- The root as it is written. -/
  element : List Token
  /-- What is left behind the root. -/
  behind : List Token
  /-- The last element in front of the root that is completed outside all others. -/
  earlier? : Option Element
  root : Element
  /-- The elements that are left open, innermost first. -/
  stack : List Element
  scan_eq : scanText text.toList = (before ++ element ++ behind, none)
  reads_before : ReadsAs IsContent ⟨[], earlier?⟩ before
  isRoot_element : IsRoot root element
  opens_behind : Opens stack behind
  eq_ofRoot : document = ofRoot root

namespace Document

variable {document : Document} {text : String}

/-- A text from which a document is read can be divided. -/
theorem exists_division (h : parse text = .ok document) : Nonempty (document.Division text) := by
  rw [parse] at h
  rcases hscan : scanText text.toList with ⟨tokens, fault?⟩
  rw [hscan] at h
  obtain ⟨⟨stack, root?⟩, hread, h⟩ := bind_eq_ok_iff.mp h
  have hall := (HasRead.rootless .nil).foldlM hread
  rw [List.nil_append] at hall
  cases fault? with
  | some fault => cases h
  | none =>
    cases hall with
    | rootless => cases h
    | rooted hbefore helement hbehind =>
      cases h
      exact ⟨⟨_, _, _, _, _, _, hscan, hbefore, helement, hbehind, rfl⟩⟩

/-- The document of a divided text is read from it. -/
theorem Division.parse_eq (division : document.Division text) : parse text = .ok document := by
  have hread :
      (division.before ++ division.element ++ division.behind).foldlM OpenElements.read {} =
        .ok ⟨division.stack, some division.root⟩ := by
    have hfront : ReadsAs (fun _ => True) ⟨[], some division.root⟩
        (division.before ++ division.element) :=
      ⟨trivial, division.reads_before.foldlM_append division.isRoot_element⟩
    exact hfront.foldlM_append division.opens_behind
  rw [parse, division.scan_eq]
  dsimp only
  rw [hread]
  exact congrArg Except.ok division.eq_ofRoot.symm

/-- A divided text is complete exactly if there is no tag on either side of the root. -/
theorem Division.isComplete_iff_isTagless (division : document.Division text) :
    document.IsComplete text ↔ IsTagless division.before ∧ IsTagless division.behind := by
  have hbefore := division.reads_before.form
  have helement := division.isRoot_element.form
  constructor
  · intro h
    -- Only the root is counted, so that nothing begins on either side of it.
    have hcount := h.begun_eq
    rw [division.scan_eq, (hbefore.append helement.isContent).begun_append, hbefore.begun_append,
      helement.begun_eq] at hcount
    exact ⟨hbefore.isTagless (by omega), division.opens_behind.form.isTagless (by omega)⟩
  · rintro ⟨hfront, hback⟩
    exact ⟨_, _, _, _, division.scan_eq, hfront, division.isRoot_element, hback,
      division.eq_ofRoot⟩

/-- A document is read from exactly those texts that have, in this order, any elements that can be
read, the element that the document is read from, and tags that complete nothing. Such a text is
complete exactly if there is no tag on either side of that element. -/
theorem isComplete_iff (text : String) (document : Document) :
    (parse text = .ok document ↔ Nonempty (document.Division text)) ∧
      ∀ division : document.Division text,
        document.IsComplete text ↔ IsTagless division.before ∧ IsTagless division.behind :=
  ⟨⟨exists_division, fun ⟨division⟩ => division.parse_eq⟩,
    fun division => division.isComplete_iff_isTagless⟩

/-- A second element outside the first one is accepted, and so is an element left open behind
it. -/
theorem not_isComplete_joined :
    (parse "<a/><b/>" = .ok ⟨none, []⟩ ∧ ¬IsComplete ⟨none, []⟩ "<a/><b/>") ∧
      (parse "<a/><b>" = .ok ⟨none, []⟩ ∧ ¬IsComplete ⟨none, []⟩ "<a/><b>") := by
  have hjoined : scanText "<a/><b/>".toList = ([.void ⟨['a'], []⟩, .void ⟨['b'], []⟩], none) := by
    decide +kernel
  have hopen : scanText "<a/><b>".toList = ([.void ⟨['a'], []⟩, .opening ⟨['b'], []⟩], none) := by
    decide +kernel
  refine ⟨⟨?_, fun h => ?_⟩, ⟨?_, fun h => ?_⟩⟩
  · rw [parse, hjoined]
    rfl
  · have hone := h.begun_eq
    rw [hjoined] at hone
    cases hone
  · rw [parse, hopen]
    rfl
  · have hone := h.begun_eq
    rw [hopen] at hone
    cases hone

end Document

end NifBindings
