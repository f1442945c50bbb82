import NifBindings.Proofs.Markup.Declarations
import NifBindings.Proofs.Text.Trimming

/-!
# Reading written documents

What is read from a text depends on the open elements alone and on the rest of the text. Each part
of a written document changes the open elements in one way, whatever stands behind it: text goes to
the innermost one in front of its first child, and an element that was written becomes a child of
it. So a written tree is read back, with the text of each element trimmed.
-/

namespace NifBindings

open Markup

/-- Whether an element is another one with its text, and that of all elements inside it, without the
white space at both ends. -/
inductive Element.IsTrimmed : Element → Element → Prop
  | intro {tag trimmed text : String} {attributes : Attributes} {others children : List Element}
      (htext : Text.IsTrimmed trimmed.toList text.toList)
      (hchildren : List.Forall₂ IsTrimmed others children) :
      IsTrimmed ⟨tag, attributes, trimmed, others⟩ ⟨tag, attributes, text, children⟩

mutual

/-- An element with its text and that of all elements inside it trimmed. -/
def Element.trimmed : Element → Element
  | ⟨tag, attributes, text, children⟩ => ⟨tag, attributes, Text.trim text, trimmedAll children⟩

/-- Elements with their text and that of all elements inside them trimmed. -/
def Element.trimmedAll : List Element → List Element
  | [] => []
  | element :: elements => element.trimmed :: trimmedAll elements

end

/-- Elements are trimmed one by one. -/
theorem Element.trimmedAll_eq_map (elements : List Element) :
    trimmedAll elements = elements.map Element.trimmed := by
  induction elements with
  | nil => rw [trimmedAll, List.map_nil]
  | cons element elements ih => rw [trimmedAll, List.map_cons, ih]

/-- Trimming an element trims its text and its children. -/
theorem Element.trimmed_eq (element : Element) :
    element.trimmed = { element with
      text := Text.trim element.text, children := element.children.map Element.trimmed } := by
  cases element
  rw [trimmed, trimmedAll_eq_map]

mutual

/-- An element is trimmed in one way only, which is how trimming does it. -/
theorem Element.isTrimmed_iff {other : Element} :
    ∀ element : Element, IsTrimmed other element ↔ other = element.trimmed
  | ⟨tag, attributes, text, children⟩ => by
    constructor
    · rintro ⟨htext, hchildren⟩
      rw [(forall₂_isTrimmed_iff children).mp hchildren, trimmed, Text.trim,
        ← Text.isTrimmed_iff.mp htext, String.ofList_toList]
    · rintro rfl
      refine .intro ?_ ((forall₂_isTrimmed_iff children).mpr rfl)
      rw [Text.isTrimmed_iff, Text.trim, String.toList_ofList]

/-- Elements are trimmed in one way only, one by one. -/
theorem Element.forall₂_isTrimmed_iff {others : List Element} :
    ∀ elements : List Element, List.Forall₂ IsTrimmed others elements ↔ others = trimmedAll elements
  | [] => by rw [List.forall₂_nil_right_iff, trimmedAll]
  | element :: elements => by
    rw [List.forall₂_cons_right_iff, trimmedAll]
    constructor
    · rintro ⟨other, others, hfirst, hrest, rfl⟩
      rw [(isTrimmed_iff element).mp hfirst, (forall₂_isTrimmed_iff elements).mp hrest]
    · rintro rfl
      exact ⟨_, _, (isTrimmed_iff element).mpr rfl, (forall₂_isTrimmed_iff elements).mpr rfl, rfl⟩

end

/-- An element with more children. -/
def Element.addChildren (element : Element) (children : List Element) : Element :=
  { element with children := element.children ++ children }

/-- Nothing is added by no children. -/
theorem Element.addChildren_nil (element : Element) : element.addChildren [] = element := by
  cases element
  rw [addChildren, List.append_nil]

/-- Children are added one behind the other. -/
theorem Element.addChildren_cons (element child : Element) (children : List Element) :
    element.addChildren (child :: children) = (element.addChild child).addChildren children := by
  simp [addChildren, addChild]

namespace Markup

variable {c : Char} {rest behind : List Char}

/-- Markup is scanned as its token and those behind it. -/
theorem scan_markup {token? : Option Token} (h : readMarkup rest = .ok (token?, behind)) :
    scan ('<' :: rest) = (token?.toList ++ (scan behind).1, (scan behind).2) := by
  rw [scan, if_pos rfl]
  split
  next hread => cases h.symm.trans hread
  next hread =>
    cases h.symm.trans hread
    rfl

/-- A reference is read up to its semicolon. -/
theorem readReference_append {name : List Char} (hname : ∀ d ∈ name, d ≠ ';' ∧ d ≠ '&' ∧ d ≠ '<')
    (rest : List Char) : readReference (name ++ ';' :: rest) = .ok (name, rest) := by
  have hrun : ∀ d ∈ name, (d != ';' && d != '&' && d != '<') = true := fun d hd => by
    simpa [and_assoc] using hname d hd
  have hend : ∀ d ∈ (';' :: rest).head?, (d != ';' && d != '&' && d != '<') = false := by simp
  unfold readReference
  dsimp only
  rw [dropWhile_append_of_head hrun hend, takeWhile_append_of_head hrun hend]
  rfl

/-- A reference is scanned as its name and the tokens behind it. -/
theorem scan_reference {name : List Char} (hname : ∀ d ∈ name, d ≠ ';' ∧ d ≠ '&' ∧ d ≠ '<') :
    scan ('&' :: name ++ ';' :: rest) = (.reference name :: (scan rest).1, (scan rest).2) := by
  have hread := readReference_append hname rest
  rw [List.cons_append, scan, if_neg (by decide), if_pos rfl]
  split
  next hfault => cases hread.symm.trans hfault
  next hfound =>
    cases hread.symm.trans hfound
    rfl

/-- Plain characters are scanned as one text and the tokens behind them. -/
theorem scan_plain (hc : isPlain c = true) :
    scan (c :: rest) =
      (.text (c :: rest.takeWhile isPlain) :: (scan (rest.dropWhile isPlain)).1,
        (scan (rest.dropWhile isPlain)).2) := by
  rw [isPlain, Bool.and_eq_true, bne_iff_ne, bne_iff_ne] at hc
  rw [scan, if_neg hc.1, if_neg hc.2]

end Markup

namespace OpenElements

variable {state : OpenElements} {c : Char} {rest behind : List Char}

/-- What is read from the tokens of a text and its fault with some elements open. -/
def finish (state : OpenElements) (scanned : List Token × Option Fault) :
    Except InputError Document := do
  let final ← scanned.1.foldlM OpenElements.read state
  match scanned.2, final.root? with
  | some fault, _ => .error (.markup fault)
  | none, some root => .ok (Document.ofRoot root)
  | none, none => .error .noRootElement

/-- What is read from a text with some elements open. -/
def readText (state : OpenElements) (text : List Char) : Except InputError Document :=
  state.finish (scan text)

/-- The first token changes the state in which the others are read. -/
theorem finish_cons (token : Token) (tokens : List Token) (fault? : Option Fault) :
    state.finish (token :: tokens, fault?) =
      state.read token >>= fun next => next.finish (tokens, fault?) := by
  simp only [finish, List.foldlM_cons, bind_assoc]

/-- Open elements with more text in the innermost one. -/
def withText (state : OpenElements) (content : List Char) : OpenElements :=
  match state.stack with
  | [] => state
  | element :: outer => { state with stack := element.addText content :: outer }

/-- Nothing is added by an empty text. -/
theorem withText_nil : state.withText [] = state := by
  obtain ⟨stack, root?⟩ := state
  cases stack with
  | nil => rfl
  | cons element outer =>
    have hsame : element.addText [] = element := by
      cases element
      unfold Element.addText
      split
      · rw [String.ofList_nil, String.append_empty]
      · rfl
    exact congrArg (fun element => OpenElements.mk (element :: outer) root?) hsame

/-- Texts are added one behind the other. -/
theorem withText_append (a b : List Char) :
    (state.withText a).withText b = state.withText (a ++ b) := by
  obtain ⟨stack, root?⟩ := state
  cases stack with
  | nil => rfl
  | cons element outer =>
    by_cases hempty : element.children.isEmpty = true
    · simp [withText, Element.addText, hempty, String.ofList_append, String.append_assoc]
    · simp [withText, Element.addText, hempty]

/-- A text is added to the innermost open element. -/
theorem read_text (content : List Char) :
    state.read (.text content) = .ok (state.withText content) := by
  obtain ⟨stack, root?⟩ := state
  cases stack <;> rfl

/-- A reference adds the character that it refers to. -/
theorem read_reference {name : List Char} (hname : RefersTo c name) :
    state.read (.reference name) = .ok (state.withText [c]) := by
  obtain ⟨stack, root?⟩ := state
  cases stack with
  | nil => rfl
  | cons element outer =>
    simp only [read, hname.resolve_eq, withText, Element.addText]
    split
    · rfl
    · rfl

/-- Text behind a child is not added. -/
theorem withText_addChild (parent child : Element) (outer : List Element) (root? : Option Element)
    (content : List Char) :
    withText ⟨parent.addChild child :: outer, root?⟩ content =
      ⟨parent.addChild child :: outer, root?⟩ := by
  simp [withText, Element.addText, Element.addChild]

/-- Plain characters are added one by one, although they are scanned as one text. -/
theorem readText_plain (hc : isPlain c = true) :
    state.readText (c :: rest) = (state.withText [c]).readText rest := by
  have hcons (state : OpenElements) {c : Char} (hc : isPlain c = true) (rest : List Char) :
      state.readText (c :: rest) =
        (state.withText (c :: rest.takeWhile isPlain)).readText (rest.dropWhile isPlain) := by
    rw [readText, scan_plain hc, finish_cons, read_text]
    rfl
  rw [hcons state hc]
  cases rest with
  | nil => rfl
  | cons d rest =>
    cases hd : isPlain d with
    | false => simp [hd]
    | true =>
      rw [hcons _ hd, withText_append, List.takeWhile_cons_of_pos hd, List.dropWhile_cons_of_pos hd]
      rfl

/-- A reference adds the character that it refers to, and reading goes on behind it. -/
theorem readText_reference {name : List Char} (hname : RefersTo c name) :
    state.readText ('&' :: name ++ ';' :: rest) = (state.withText [c]).readText rest := by
  have hchars : ∀ d ∈ name, d ≠ ';' ∧ d ≠ '&' ∧ d ≠ '<' := fun d hd =>
    ⟨hname.ne_of_mem hd (by decide), hname.ne_of_mem hd (by decide),
      hname.ne_of_mem hd (by decide)⟩
  rw [readText, scan_reference hchars, finish_cons, read_reference hname]
  rfl

/-- Markup with a token changes the state as the token does. -/
theorem readText_markup {token : Token} (h : readMarkup rest = .ok (some token, behind)) :
    state.readText ('<' :: rest) = state.read token >>= fun next => next.readText behind := by
  rw [readText, scan_markup h]
  exact finish_cons token _ _

/-- Markup without a token changes nothing. -/
theorem readText_silent (h : readMarkup rest = .ok (none, behind)) :
    state.readText ('<' :: rest) = state.readText behind := by
  rw [readText, scan_markup h]
  rfl

/-- A comment or an instruction is passed over. -/
theorem readText_aside {aside : List Char} (haside : IsAside aside) :
    state.readText (aside ++ rest) = state.readText rest := by
  obtain ⟨body, rfl, hread⟩ := haside.exists_body
  exact readText_silent (hread rest)

/-- A text adds the characters that it writes. -/
theorem readText_writesText {content text : List Char} (h : WritesText content text) :
    state.readText (text ++ rest) = (state.withText content).readText rest := by
  unfold WritesText at h
  induction h generalizing state with
  | nil => rw [withText_nil, List.nil_append]
  | itself hc _ ih => rw [List.cons_append, readText_plain hc, ih, withText_append]; rfl
  | @reference c name content text hname _ ih =>
    have hassoc : '&' :: name ++ ';' :: text ++ rest = '&' :: name ++ ';' :: (text ++ rest) := by
      simp
    rw [hassoc, readText_reference hname, ih, withText_append]
    rfl
  | skip haside _ ih => rw [List.append_assoc, readText_aside haside, ih]

end OpenElements

/-- Blanks, comments and instructions are a text. -/
theorem Markup.IsMiscellany.exists_writesText {text : List Char} (h : IsMiscellany text) :
    ∃ content, WritesText content text := by
  induction h with
  | nil => exact ⟨[], .nil⟩
  | @blank c text hc _ ih =>
    obtain ⟨content, hcontent⟩ := ih
    have hplain : isPlain c = true := by
      rw [isPlain, Bool.and_eq_true, bne_iff_ne, bne_iff_ne]
      exact ⟨ne_of_isMarkupBlank hc (by decide), ne_of_isMarkupBlank hc (by decide)⟩
    exact ⟨c :: content, .itself hplain hcontent⟩
  | aside haside _ ih =>
    obtain ⟨content, hcontent⟩ := ih
    exact ⟨content, .skip haside hcontent⟩

namespace OpenElements

variable {element parent : Element} {outer : List Element} {root? : Option Element}
  {inside text rest : List Char}

/-- Outside all elements, blanks, comments and instructions are passed over. -/
theorem readText_miscellany (h : IsMiscellany text) :
    readText ⟨[], root?⟩ (text ++ rest) = readText ⟨[], root?⟩ rest := by
  obtain ⟨content, hcontent⟩ := h.exists_writesText
  rw [readText_writesText hcontent]
  rfl

/-- An element is completed as it was written, if its children are read into it. -/
theorem readText_around (state : OpenElements) (h : WritesAround element inside text)
    (hinside : ∀ parent outer rest,
      readText ⟨parent :: outer, state.root?⟩ (inside ++ rest) =
        readText ⟨parent.addChildren (element.children.map Element.trimmed) :: outer,
          state.root?⟩ rest) :
    state.readText (text ++ rest) = (state.complete element.trimmed).readText rest := by
  cases h with
  | @void assigned behind hname hassigned hbehind htext hchildren =>
    obtain ⟨tag, htag, hread⟩ := exists_void hname hassigned hbehind rest
    have htrimmed : element.trimmed = { element with text := "", children := [] } := by
      rw [element.trimmed_eq, htext, hchildren]
      rfl
    calc state.readText ('<' :: element.tag.toList ++ assigned ++ behind ++ "/>".toList ++ rest)
        = state.readText
            ('<' :: (element.tag.toList ++ (assigned ++ behind ++ ['/']) ++ '>' :: rest)) := by simp
      _ = state.read (.void tag) >>= fun next => next.readText rest := readText_markup hread
      _ = (state.complete element.trimmed).readText rest := by rw [read, htag, htrimmed]; rfl
  | @pair assigned behind leading inside last hname hassigned hbehind hleading hlast =>
    let closing := '<' :: ('/' :: (element.tag.toList ++ last) ++ '>' :: rest)
    obtain ⟨tag, htag, hread⟩ :=
      exists_opening hname hassigned hbehind (leading ++ (inside ++ closing))
    have hclosing := readMarkup_closing hname hlast rest
    calc state.readText ('<' :: element.tag.toList ++ assigned ++ behind ++ '>' :: leading ++
          inside ++ "</".toList ++ element.tag.toList ++ last ++ ['>'] ++ rest)
        = state.readText ('<' :: (element.tag.toList ++ (assigned ++ behind) ++
            '>' :: (leading ++ (inside ++ closing)))) := by simp [closing]
      _ = state.read (.opening tag) >>= fun next =>
            next.readText (leading ++ (inside ++ closing)) :=
          readText_markup hread
      _ = readText ⟨{ element with text := "", children := [] } :: state.stack, state.root?⟩
            (leading ++ (inside ++ closing)) := by rw [read, htag]; rfl
      _ = readText ⟨{ element with children := [] } :: state.stack, state.root?⟩
            (inside ++ closing) := by
          rw [readText_writesText hleading]
          simp [withText, Element.addText]
      _ = readText ⟨{ element with children := element.children.map Element.trimmed } ::
            state.stack, state.root?⟩ closing := hinside _ _ _
      _ = (state.complete element.trimmed).readText rest := by
          rw [readText_markup hclosing, read, close, element.trimmed_eq]
          simp only [String.ofList_toList, if_true]
          rfl

/-- The children of an element are read into it. -/
theorem readText_children {elements : List Element} (h : WritesChildren elements text) :
    readText ⟨parent :: outer, root?⟩ (text ++ rest) =
      readText ⟨parent.addChildren (elements.map Element.trimmed) :: outer, root?⟩ rest := by
  induction h generalizing parent outer root? rest with
  | nil => rw [List.map_nil, Element.addChildren_nil, List.nil_append]
  | @cons element elements inside text ignored gap more _ helement hgap _ ihinside ih =>
    rw [List.append_assoc, List.append_assoc,
      readText_around _ helement fun _ _ _ => ihinside, readText_writesText hgap, complete]
    dsimp only
    rw [withText_addChild, ih, List.map_cons, Element.addChildren_cons]

/-- What stands in front of the root is passed over. -/
theorem readText_prolog (h : IsProlog text) :
    readText ⟨[], root?⟩ (text ++ rest) = readText ⟨[], root?⟩ rest := by
  cases h with
  | plain htext => exact readText_miscellany htext
  | declared hfront hdoctype hback =>
    obtain ⟨body, rfl, hread⟩ := hdoctype.exists_body
    rw [List.append_assoc, List.append_assoc, readText_miscellany hfront, List.cons_append,
      readText_silent (hread _), readText_miscellany hback]

end OpenElements

namespace Markup

/-- Whether a text begins with an opening bracket or a blank, if it is not empty. -/
def BeginsWell (text : List Char) : Prop :=
  ∀ c ∈ text.head?, c = '<' ∨ isMarkupBlank c = true

/-- Two texts that begin well do so together. -/
theorem BeginsWell.append {a b : List Char} (ha : BeginsWell a) (hb : BeginsWell b) :
    BeginsWell (a ++ b) := by
  cases a with
  | nil => exact hb
  | cons c a => exact ha

/-- A comment or an instruction begins with an opening bracket. -/
theorem IsAside.beginsWell {text : List Char} (h : IsAside text) : BeginsWell text := by
  obtain ⟨body, rfl, -⟩ := h.exists_body
  simp [BeginsWell]

/-- Blanks, comments and instructions begin well. -/
theorem IsMiscellany.beginsWell {text : List Char} (h : IsMiscellany text) : BeginsWell text := by
  induction h with
  | nil => simp [BeginsWell]
  | blank hc _ _ => simp [BeginsWell, hc]
  | aside haside _ ih => exact haside.beginsWell.append ih

/-- What stands in front of the root begins well. -/
theorem IsProlog.beginsWell {text : List Char} (h : IsProlog text) : BeginsWell text := by
  cases h with
  | plain htext => exact htext.beginsWell
  | declared hfront hdoctype hback =>
    obtain ⟨body, rfl, -⟩ := hdoctype.exists_body
    exact (hfront.beginsWell.append (by simp [BeginsWell])).append hback.beginsWell

/-- An element begins with an opening bracket. -/
theorem WritesAround.beginsWell {element : Element} {inside text : List Char}
    (h : WritesAround element inside text) : BeginsWell text := by
  cases h <;> simp [BeginsWell]

/-- A document is scanned behind its byte order mark. -/
theorem scanText_of_beginsWell {text : List Char} (h : BeginsWell text) :
    scanText text = scan text ∧ scanText (byteOrderMark :: text) = scan text := by
  refine ⟨?_, by simp [scanText]⟩
  cases text with
  | nil => rfl
  | cons c text =>
    have hc : c ≠ byteOrderMark := by
      rintro rfl
      rcases h byteOrderMark rfl with hsame | hblank
      · cases hsame
      · cases hblank
    simp [scanText, hc]

end Markup

/-- A written document is read back. However a tree of elements is written, what is read is the
version of its root and the elements inside it: each of them with its tag, its attributes in their
order with the values that were meant, its text in front of its first child without the white space
at both ends, and its children in their order. -/
theorem Document.parse_of_writesDocument {root : Element} {text : String}
    (h : WritesDocument root text.toList) :
    ∃ entries, Document.parse text = .ok ⟨root.get? "version", entries⟩ ∧
      List.Forall₂ Element.IsTrimmed entries root.children := by
  obtain ⟨prolog, inside, body, behind, hprolog, hinside, hbody, hbehind, htext⟩ := h
  have hscan : scanText text.toList = scan (prolog ++ body ++ behind) := by
    have hbegins := scanText_of_beginsWell
      ((hprolog.beginsWell.append hbody.beginsWell).append hbehind.beginsWell)
    rcases htext with htext | htext
    · rw [htext, hbegins.1]
    · rw [htext, hbegins.2]
  refine ⟨Element.trimmedAll root.children, ?_, (Element.forall₂_isTrimmed_iff _).mpr rfl⟩
  calc Document.parse text
      = OpenElements.readText {} (prolog ++ (body ++ (behind ++ []))) := by
        rw [OpenElements.readText, List.append_nil, ← List.append_assoc, ← hscan]
        rfl
    _ = OpenElements.readText {} (body ++ (behind ++ [])) := OpenElements.readText_prolog hprolog
    _ = OpenElements.readText ⟨[], some root.trimmed⟩ (behind ++ []) :=
        OpenElements.readText_around {} hbody fun _ _ _ => OpenElements.readText_children hinside
    _ = OpenElements.readText ⟨[], some root.trimmed⟩ [] :=
        OpenElements.readText_miscellany hbehind
    _ = .ok (Document.ofRoot root.trimmed) := by
        rw [OpenElements.readText, scan]
        rfl
    _ = .ok ⟨root.get? "version", Element.trimmedAll root.children⟩ := by
        cases root
        rw [Element.trimmed]
        rfl

/-- An element with a text that begins and ends with white space. -/
def itemElement : Element where
  tag := "item"
  attributes := .ofList [("key", "A>B")]
  text := "\n x & y\u00a0"
  children := []

/-- An element without attributes, text and children. -/
def emptyElement : Element where
  tag := "empty"
  attributes := .empty
  text := ""
  children := []

/-- An element with text and children. -/
def schemaElement : Element where
  tag := "schema"
  attributes := .ofList [("version", "0.9")]
  text := " a < 1 "
  children := [itemElement, emptyElement]

/-- A document with references, a comment and an internal subset. -/
def schemaText : String :=
  "<?xml version=\"1.0\"?>\n<!DOCTYPE schema [<!ENTITY x \">\">]>" ++
    "<schema version='0.9'> a &lt;<!-- b --> &#x31; <item key=\"&#065;>B\" >\n x &amp; y&#xA0;" ++
    "</item ><empty /> tail</schema>\n"

/-- A document is read back with its references resolved, without its comment, the text behind a
child and the white space around the text of a child. -/
theorem Document.parse_schemaText :
    WritesDocument schemaElement schemaText.toList ∧
      Document.parse schemaText =
        .ok ⟨some "0.9", [{ itemElement with text := "x & y" }, emptyElement]⟩ := by
  have hspace : IsBlank [' '] := by decide
  have hnothing : IsBlank [] := by decide
  have hprolog : IsProlog
      "<?xml version=\"1.0\"?>\n<!DOCTYPE schema [<!ENTITY x \">\">]>".toList := by
    have hinstruction : IsAside "<?xml version=\"1.0\"?>".toList :=
      .instruction (by decide : IsName "xml".toList)
        (by decide : ¬['?', '>'] <:+: "xml".toList ++ " version=\"1.0\"".toList ++ ['?'])
    have hexternal : OnlyQuoted ['>', '['] [' '] := .outside (by decide) (by decide) .nil
    have hliteral : OnlyQuoted ['>'] " x \">\"".toList :=
      .outside (by decide) (by decide) (.outside (by decide) (by decide)
        (.outside (by decide) (by decide) (.inside (by decide) (by decide : '\"' ∉ ['>']) .nil)))
    have hsubset : IsSubset "<!ENTITY x \">\">".toList :=
      .literals (by decide : "!ENTITY".toList ∈ literalKeywords) hliteral .nil
    exact .declared (.aside hinstruction (.blank (by decide) .nil))
      (.subset hspace (by decide : IsName "schema".toList) hexternal hsubset hnothing) .nil
  have hitem := by
    have hvalue : WritesValue '\"' ['A', '>', 'B'] _ :=
      .reference (.decimal 1 (by decide)) (.itself (by decide) (.itself (by decide) .nil))
    have hassigned : WritesAttributes itemElement.attributes.entries _ :=
      .cons (by decide) hspace (by decide) hnothing hnothing (by decide) hvalue .nil
    have hamp : RefersTo '&' ['a', 'm', 'p'] := .named (by decide)
    have hblank : RefersTo '\u00a0' ['#', 'x', 'A', '0'] :=
      .hexadecimal 0 (by decide) (by decide)
    have hleading : WritesText ['\n', ' ', 'x', ' ', '&', ' ', 'y', '\u00a0'] _ :=
      .itself (by decide) (.itself (by decide) (.itself (by decide) (.itself (by decide)
        (.reference hamp (.itself (by decide) (.itself (by decide) (.reference hblank .nil)))))))
    exact (.pair (by decide) hassigned hspace hleading hspace : WritesAround itemElement [] _)
  have hempty := by
    have hassigned : WritesAttributes emptyElement.attributes.entries [] := .nil
    exact (.void (by decide) hassigned hspace rfl rfl : WritesAround emptyElement [] _)
  have hinside := by
    have hgap : WritesText [' ', 't', 'a', 'i', 'l'] _ :=
      .itself (by decide) (.itself (by decide) (.itself (by decide) (.itself (by decide)
        (.itself (by decide) .nil))))
    exact (.cons .nil hitem (.nil : WritesText [] []) (.cons .nil hempty hgap .nil) :
      WritesChildren [itemElement, emptyElement] _)
  have hroot (inside : List Char) := by
    have hcomment : IsAside "<!-- b -->".toList :=
      .comment (by decide : ¬['-', '-', '>'] <:+: " b ".toList ++ ['-', '-'])
    have hone : RefersTo '1' ['#', 'x', '3', '1'] := .hexadecimal 0 (by decide) (by decide)
    have hless : RefersTo '<' ['l', 't'] := .named (by decide)
    have hleading : WritesText [' ', 'a', ' ', '<', ' ', '1', ' '] _ :=
      .itself (by decide) (.itself (by decide) (.itself (by decide) (.reference hless
        (.skip hcomment (.itself (by decide) (.reference hone (.itself (by decide) .nil)))))))
    have hvalue : WritesValue '\'' ['0', '.', '9'] _ :=
      .itself (by decide) (.itself (by decide) (.itself (by decide) .nil))
    have hassigned : WritesAttributes schemaElement.attributes.entries _ :=
      .cons (by decide) hspace (by decide) hnothing hnothing (by decide) hvalue .nil
    exact (.pair (by decide) hassigned hnothing hleading hnothing :
      WritesAround schemaElement inside _)
  have hwrites : WritesDocument schemaElement schemaText.toList :=
    ⟨_, _, _, _, hprolog, hinside, hroot _, .blank (by decide : isMarkupBlank '\n' = true) .nil,
      .inl (by decide +kernel)⟩
  refine ⟨hwrites, ?_⟩
  obtain ⟨entries, hparse, htrimmed⟩ := Document.parse_of_writesDocument hwrites
  have hversion : schemaElement.get? "version" = some "0.9" := by decide +kernel
  have hentries : entries = [{ itemElement with text := "x & y" }, emptyElement] := by
    have hitem : Text.trim itemElement.text = "x & y" := by decide +kernel
    have hempty : Text.trim emptyElement.text = "" := by decide +kernel
    rw [(Element.forall₂_isTrimmed_iff _).mp htrimmed, schemaElement, Element.trimmedAll_eq_map,
      List.map_cons, List.map_singleton, Element.trimmed_eq, Element.trimmed_eq, hitem, hempty]
    rfl
  rw [hparse, hversion, hentries]

end NifBindings
