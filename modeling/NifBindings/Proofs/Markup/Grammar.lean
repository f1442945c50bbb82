import Mathlib.Data.List.Infix
import NifBindings.Markup.Document

/-!
# Written documents

How a tree of elements can be written as markup. A text may have any of its characters written as
references, quotes are free to choose, and blanks may stand wherever the standard allows them.
Comments and instructions may stand between the parts of a text. Nothing here refers to how a
document is read.
-/

namespace NifBindings.Markup

/-- The code points of the characters that a name can begin with. -/
def nameStartRanges : List (Nat × Nat) :=
  [(0x3A, 0x3A), (0x41, 0x5A), (0x5F, 0x5F), (0x61, 0x7A), (0xC0, 0xD6), (0xD8, 0xF6),
    (0xF8, 0x2FF), (0x370, 0x37D), (0x37F, 0x1FFF), (0x200C, 0x200D), (0x2070, 0x218F),
    (0x2C00, 0x2FEF), (0x3001, 0xD7FF), (0xF900, 0xFDCF), (0xFDF0, 0xFFFD), (0x10000, 0xEFFFF)]

/-- The code points of the other characters that a name can have behind its first one. -/
def nameMoreRanges : List (Nat × Nat) :=
  [(0x2D, 0x2E), (0x30, 0x39), (0xB7, 0xB7), (0x300, 0x36F), (0x203F, 0x2040)]

/-- Whether the code point of a character lies in one of some ranges. -/
def isInRanges (ranges : List (Nat × Nat)) (c : Char) : Bool :=
  ranges.any fun range => range.1 ≤ c.toNat && c.toNat ≤ range.2

/-- Whether a character can stand in a name. -/
def isNameChar (c : Char) : Bool :=
  isInRanges nameStartRanges c || isInRanges nameMoreRanges c

/-- Whether a text is a name. -/
def IsName (text : List Char) : Prop :=
  ∃ first rest, text = first :: rest ∧ isInRanges nameStartRanges first = true ∧
    rest.all isNameChar = true

instance (text : List Char) : Decidable (IsName text) :=
  match text with
  | [] => .isFalse fun ⟨_, _, hcons, _⟩ => by cases hcons
  | first :: rest =>
    decidable_of_iff (isInRanges nameStartRanges first = true ∧ rest.all isNameChar = true)
      ⟨fun h => ⟨first, rest, rfl, h⟩, fun ⟨_, _, hcons, h⟩ => by cases hcons; exact h⟩

/-- The characters that have named references. -/
def namedReferences : List (List Char × Char) :=
  [(['l', 't'], '<'), (['g', 't'], '>'), (['a', 'm', 'p'], '&'), (['a', 'p', 'o', 's'], '\''),
    (['q', 'u', 'o', 't'], '\"')]

/-- Whether a text between an ampersand and a semicolon refers to a character. Numbers may have any
noughts in front, and the digits of hexadecimal ones may be capitals. -/
inductive RefersTo (c : Char) : List Char → Prop
  | named {name : List Char} (hname : (name, c) ∈ namedReferences) : RefersTo c name
  | decimal (noughts : Nat) (hc : c.toNat ≠ 0) :
      RefersTo c ('#' :: (List.replicate noughts '0' ++ Nat.toDigits 10 c.toNat))
  | hexadecimal {digits : List Char} (noughts : Nat) (hc : c.toNat ≠ 0)
      (hdigits : digits.map Char.toLower = List.replicate noughts '0' ++ Nat.toDigits 16 c.toNat) :
      RefersTo c ('#' :: 'x' :: digits)

/-- Whether a text is a comment or an instruction. -/
inductive IsAside : List Char → Prop
  | comment {content : List Char} (hend : ¬['-', '-', '>'] <:+: content ++ ['-', '-']) :
      IsAside ("<!--".toList ++ content ++ "-->".toList)
  | instruction {target content : List Char} (htarget : IsName target)
      (hend : ¬['?', '>'] <:+: target ++ content ++ ['?']) :
      IsAside ("<?".toList ++ (target ++ content) ++ "?>".toList)

/-- Whether a text writes some characters. Each of them stands for itself, where it may, or is
referred to, and between them there may be texts that write nothing. -/
inductive Writes (asItself : Char → Bool) (between : List Char → Prop) :
    List Char → List Char → Prop
  | nil : Writes asItself between [] []
  | itself {c : Char} {content text : List Char} (hc : asItself c = true)
      (h : Writes asItself between content text) :
      Writes asItself between (c :: content) (c :: text)
  | reference {c : Char} {name content text : List Char} (hname : RefersTo c name)
      (h : Writes asItself between content text) :
      Writes asItself between (c :: content) ('&' :: name ++ ';' :: text)
  | skip {aside content text : List Char} (haside : between aside)
      (h : Writes asItself between content text) :
      Writes asItself between content (aside ++ text)

/-- Whether a text writes some characters inside an element. -/
def WritesText : List Char → List Char → Prop :=
  Writes isPlain IsAside

/-- Whether a text writes some characters between two quotes. -/
def WritesValue (quote : Char) : List Char → List Char → Prop :=
  Writes (fun c => isPlain c && c != quote) fun _ => False

/-- Whether a text consists of blanks. -/
def IsBlank (text : List Char) : Prop :=
  text.all isMarkupBlank = true

instance (text : List Char) : Decidable (IsBlank text) :=
  inferInstanceAs (Decidable (text.all isMarkupBlank = true))

/-- Whether a text writes attributes behind the name of an element, with a blank in front of each of
them. -/
inductive WritesAttributes : List (String × String) → List Char → Prop
  | nil : WritesAttributes [] []
  | cons {key value : String} {entries : List (String × String)} {quote : Char}
      {front middle back written text : List Char} (hne : front ≠ []) (hfront : IsBlank front)
      (hkey : IsName key.toList) (hmiddle : IsBlank middle) (hback : IsBlank back)
      (hquote : isQuote quote = true) (hvalue : WritesValue quote value.toList written)
      (h : WritesAttributes entries text) :
      WritesAttributes ((key, value) :: entries)
        (front ++ key.toList ++ middle ++ '=' :: back ++ quote :: written ++ quote :: text)

/-- Whether a text writes an element around a text that writes its children. Without text and
children one tag is enough. -/
inductive WritesAround (element : Element) : List Char → List Char → Prop
  | void {assigned behind : List Char} (hname : IsName element.tag.toList)
      (hassigned : WritesAttributes element.attributes.entries assigned)
      (hbehind : IsBlank behind) (htext : element.text = "") (hchildren : element.children = []) :
      WritesAround element [] ('<' :: element.tag.toList ++ assigned ++ behind ++ "/>".toList)
  | pair {assigned behind leading inside last : List Char} (hname : IsName element.tag.toList)
      (hassigned : WritesAttributes element.attributes.entries assigned)
      (hbehind : IsBlank behind) (hleading : WritesText element.text.toList leading)
      (hlast : IsBlank last) :
      WritesAround element inside
        ('<' :: element.tag.toList ++ assigned ++ behind ++ '>' :: leading ++ inside ++
          "</".toList ++ element.tag.toList ++ last ++ ['>'])

/-- Whether a text writes the children of an element. Behind each child there may be any text. -/
inductive WritesChildren : List Element → List Char → Prop
  | nil : WritesChildren [] []
  | cons {element : Element} {elements : List Element} {inside text ignored gap more : List Char}
      (hinside : WritesChildren element.children inside)
      (helement : WritesAround element inside text) (hgap : WritesText ignored gap)
      (h : WritesChildren elements more) :
      WritesChildren (element :: elements) (text ++ gap ++ more)

/-- Whether a text consists of blanks, comments and instructions. -/
inductive IsMiscellany : List Char → Prop
  | nil : IsMiscellany []
  | blank {c : Char} {text : List Char} (hc : isMarkupBlank c = true) (h : IsMiscellany text) :
      IsMiscellany (c :: text)
  | aside {aside text : List Char} (haside : IsAside aside) (h : IsMiscellany text) :
      IsMiscellany (aside ++ text)

/-- Whether some characters occur in a text between quotes only. -/
inductive OnlyQuoted (hidden : List Char) : List Char → Prop
  | nil : OnlyQuoted hidden []
  | outside {c : Char} {text : List Char} (hquote : isQuote c = false) (hc : c ∉ hidden)
      (h : OnlyQuoted hidden text) : OnlyQuoted hidden (c :: text)
  | inside {quote : Char} {body text : List Char} (hquote : isQuote quote = true)
      (hbody : quote ∉ body) (h : OnlyQuoted hidden text) :
      OnlyQuoted hidden (quote :: body ++ quote :: text)

/-- Whether a text is the internal subset of a document type declaration. -/
inductive IsSubset : List Char → Prop
  | nil : IsSubset []
  | other {c : Char} {text : List Char} (hc : c ≠ '<' ∧ c ≠ ']') (h : IsSubset text) :
      IsSubset (c :: text)
  | aside {aside text : List Char} (haside : IsAside aside) (h : IsSubset text) :
      IsSubset (aside ++ text)
  | element {content text : List Char} (hcontent : '>' ∉ content) (h : IsSubset text) :
      IsSubset ("<!ELEMENT".toList ++ content ++ '>' :: text)
  | literals {keyword content text : List Char} (hkeyword : keyword ∈ literalKeywords)
      (hcontent : OnlyQuoted ['>'] content) (h : IsSubset text) :
      IsSubset ('<' :: keyword ++ content ++ '>' :: text)

/-- Whether a text is a document type declaration. -/
inductive IsDoctype : List Char → Prop
  | plain {front name external : List Char} (hfront : IsBlank front) (hname : IsName name)
      (hexternal : OnlyQuoted ['>', '['] external) :
      IsDoctype ("<!DOCTYPE".toList ++ (front ++ name ++ external) ++ ['>'])
  | subset {front name external subset last : List Char} (hfront : IsBlank front)
      (hname : IsName name) (hexternal : OnlyQuoted ['>', '['] external) (hsubset : IsSubset subset)
      (hlast : IsBlank last) :
      IsDoctype ("<!DOCTYPE".toList ++ (front ++ name ++ external) ++ '[' :: subset ++
        ']' :: last ++ ['>'])

/-- Whether a text can stand in front of the root of a document. -/
inductive IsProlog : List Char → Prop
  | plain {text : List Char} (htext : IsMiscellany text) : IsProlog text
  | declared {front doctype back : List Char} (hfront : IsMiscellany front)
      (hdoctype : IsDoctype doctype) (hback : IsMiscellany back) :
      IsProlog (front ++ doctype ++ back)

/-- Whether a text writes a document with this root, perhaps behind a byte order mark. -/
def WritesDocument (root : Element) (text : List Char) : Prop :=
  ∃ prolog inside body behind, IsProlog prolog ∧ WritesChildren root.children inside ∧
    WritesAround root inside body ∧ IsMiscellany behind ∧
    (text = prolog ++ body ++ behind ∨ text = byteOrderMark :: (prolog ++ body ++ behind))

/-- Whether the tags and the keys of an element and of all elements inside it are names. -/
inductive IsWellNamed : Element → Prop
  | intro {element : Element} (htag : IsName element.tag.toList)
      (hkeys : ∀ entry ∈ element.attributes.entries, IsName entry.1.toList)
      (hchildren : ∀ child ∈ element.children, IsWellNamed child) : IsWellNamed element

section Existence

/-- Any characters can be written if there are references to those that do not stand for
themselves. -/
theorem exists_writes {asItself : Char → Bool} {between : List Char → Prop}
    (hrefers : ∀ c, asItself c = false → ∃ name, RefersTo c name) (content : List Char) :
    ∃ text, Writes asItself between content text := by
  induction content with
  | nil => exact ⟨[], .nil⟩
  | cons c content ih =>
    obtain ⟨text, htext⟩ := ih
    cases hc : asItself c with
    | true => exact ⟨c :: text, .itself hc htext⟩
    | false =>
      obtain ⟨name, hname⟩ := hrefers c hc
      exact ⟨_, .reference hname htext⟩

/-- There are references to the characters that tags and references begin with. -/
theorem exists_refersTo {c : Char} (h : isPlain c = false) : ∃ name, RefersTo c name := by
  rw [isPlain, Bool.and_eq_false_iff, bne_eq_false_iff_eq, bne_eq_false_iff_eq] at h
  rcases h with rfl | rfl
  · exact ⟨['l', 't'], .named (by decide)⟩
  · exact ⟨['a', 'm', 'p'], .named (by decide)⟩

/-- Any text can be written inside an element. -/
theorem exists_writesText (content : List Char) : ∃ text, WritesText content text :=
  exists_writes (fun _ => exists_refersTo) content

/-- Any value can be written between double quotes. -/
theorem exists_writesValue (content : List Char) : ∃ text, WritesValue '\"' content text := by
  refine exists_writes (fun c hc => ?_) content
  rw [Bool.and_eq_false_iff, bne_eq_false_iff_eq] at hc
  rcases hc with hc | rfl
  · exact exists_refersTo hc
  · exact ⟨['q', 'u', 'o', 't'], .named (by decide)⟩

/-- Any attributes can be written if their keys are names. -/
theorem exists_writesAttributes {entries : List (String × String)}
    (hkeys : ∀ entry ∈ entries, IsName entry.1.toList) :
    ∃ text, WritesAttributes entries text := by
  induction entries with
  | nil => exact ⟨[], .nil⟩
  | cons entry entries ih =>
    obtain ⟨hkey, hkeys⟩ := List.forall_mem_cons.mp hkeys
    obtain ⟨text, htext⟩ := ih hkeys
    obtain ⟨written, hvalue⟩ := exists_writesValue entry.2.toList
    have hspace : IsBlank [' '] := by decide
    have hnothing : IsBlank [] := by decide
    exact ⟨_, .cons (by decide) hspace hkey hnothing hnothing (by decide) hvalue htext⟩

/-- A well-named element can be written around any text. -/
theorem IsWellNamed.exists_writesAround {element : Element} (h : IsWellNamed element)
    (inside : List Char) : ∃ text, WritesAround element inside text := by
  cases h with
  | intro htag hkeys hchildren =>
    obtain ⟨assigned, hassigned⟩ := exists_writesAttributes hkeys
    obtain ⟨leading, hleading⟩ := exists_writesText element.text.toList
    have hnothing : IsBlank [] := by decide
    exact ⟨_, .pair htag hassigned hnothing hleading hnothing⟩

/-- The children of a well-named element can be written. -/
theorem IsWellNamed.exists_writesChildren {element : Element} (h : IsWellNamed element) :
    ∃ inside, WritesChildren element.children inside := by
  induction h with
  | @intro element htag hkeys hchildren ih =>
    generalize element.children = children at hchildren ih
    induction children with
    | nil => exact ⟨[], .nil⟩
    | cons child children ihchildren =>
      obtain ⟨hchild, hchildren⟩ := List.forall_mem_cons.mp hchildren
      obtain ⟨hinside, ih⟩ := List.forall_mem_cons.mp ih
      obtain ⟨inside, hinside⟩ := hinside
      obtain ⟨text, htext⟩ := hchild.exists_writesAround inside
      obtain ⟨more, hmore⟩ := ihchildren hchildren ih
      exact ⟨_, .cons hinside htext (.nil : WritesText [] []) hmore⟩

/-- Every well-named tree can be written as a document. -/
theorem IsWellNamed.exists_writesDocument {root : Element} (h : IsWellNamed root) :
    ∃ text : String, WritesDocument root text.toList := by
  obtain ⟨inside, hinside⟩ := h.exists_writesChildren
  obtain ⟨text, htext⟩ := h.exists_writesAround inside
  refine ⟨String.ofList text, [], inside, text, [], .plain .nil, hinside, htext, .nil, .inl ?_⟩
  rw [String.toList_ofList, List.nil_append, List.append_nil]

end Existence

end NifBindings.Markup
