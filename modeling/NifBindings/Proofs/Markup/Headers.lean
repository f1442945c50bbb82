import NifBindings.Proofs.Markup.Assignments
import NifBindings.Proofs.Markup.Complete
import NifBindings.Proofs.Markup.Reading

/-!
# Headers of elements

Every tag that opens an element, or is one, gives it a name and attributes. The tags of a text are
those of its elements, each of them around the tags of its children, so that no element is lost.
What its tag does not have in an attribute list, an element does not have either, and reading does
not complain.
-/

namespace NifBindings

open Markup

namespace Markup

/-- Whether the tags of a text, one behind the other, have these insides. A tag ends at its first
closing bracket outside quotes. Declarations and instructions are no tags. -/
inductive HasTags : List Char → List (List Char) → Prop
  | nil : HasTags [] []
  | plain {c : Char} {text : List Char} {insides : List (List Char)} (hc : isPlain c = true)
      (h : HasTags text insides) : HasTags (c :: text) insides
  | reference {name text : List Char} {insides : List (List Char)}
      (hname : ∀ c ∈ name, c ≠ ';' ∧ c ≠ '&' ∧ c ≠ '<') (h : HasTags text insides) :
      HasTags ('&' :: name ++ ';' :: text) insides
  | silent {text behind : List Char} {insides : List (List Char)}
      (hread : readMarkup text = .ok (none, behind)) (h : HasTags behind insides) :
      HasTags ('<' :: text) insides
  | tag {inside text : List Char} {insides : List (List Char)}
      (hbegins : ∀ c ∈ inside.head?, c ≠ '!' ∧ c ≠ '?') (hquoted : OnlyQuoted ['>'] inside)
      (h : HasTags text insides) : HasTags ('<' :: inside ++ '>' :: text) (inside :: insides)

section Scan

variable {quote? : Option Char} {text inside behind : List Char} {token : Token}

/-- Behind a quote, a tag goes on up to the next one. -/
theorem exists_of_splitTag_some {quote : Char}
    (h : splitTag (some quote) text = .ok (inside, behind)) :
    ∃ body rest more, text = body ++ quote :: rest ∧ inside = body ++ quote :: more ∧
      quote ∉ body ∧ splitTag none rest = .ok (more, behind) := by
  induction text generalizing inside with
  | nil => cases h
  | cons c text ih =>
    rw [splitTag, if_neg (by simp), map_eq_ok_iff] at h
    obtain ⟨⟨more, rest⟩, h, hpair⟩ := h
    obtain ⟨rfl, rfl⟩ := Prod.mk.inj hpair
    by_cases hc : c = quote
    · subst hc
      simp only [if_pos] at h
      exact ⟨[], text, more, rfl, rfl, List.not_mem_nil, h⟩
    · simp only [if_neg hc] at h
      obtain ⟨body, tail, last, rfl, rfl, hquote, hrest⟩ := ih h
      refine ⟨c :: body, tail, last, rfl, rfl, ?_, hrest⟩
      rw [List.mem_cons, not_or]
      exact ⟨fun hsame => hc hsame.symm, hquote⟩

/-- A tag is cut off where its first closing bracket outside quotes stands. -/
theorem splitTag_none_iff :
    splitTag none text = .ok (inside, behind) ↔
      text = inside ++ '>' :: behind ∧ OnlyQuoted ['>'] inside := by
  constructor
  · intro h
    induction hlength : text.length using Nat.strongRecOn generalizing text inside with
    | _ length ih =>
      subst hlength
      cases text with
      | nil => cases h
      | cons c text =>
        rw [splitTag] at h
        by_cases hend : c = '>'
        · rw [if_pos ⟨rfl, hend⟩] at h
          cases h
          exact ⟨by rw [hend]; rfl, .nil⟩
        · rw [if_neg fun hboth => hend hboth.2, map_eq_ok_iff] at h
          obtain ⟨⟨more, rest⟩, h, hpair⟩ := h
          obtain ⟨rfl, rfl⟩ := Prod.mk.inj hpair
          cases hquote : isQuote c with
          | false =>
            simp only [hquote, Bool.false_eq_true, if_false] at h
            obtain ⟨rfl, hquoted⟩ := ih _ (by simp) h rfl
            exact ⟨rfl, .outside hquote (by simpa using hend) hquoted⟩
          | true =>
            simp only [hquote, if_true] at h
            obtain ⟨body, tail, last, rfl, rfl, hbody, hrest⟩ := exists_of_splitTag_some h
            obtain ⟨rfl, hquoted⟩ := ih _ (by simp; omega) hrest rfl
            refine ⟨by simp, ?_⟩
            have hinside := OnlyQuoted.inside hquote hbody hquoted
            simpa using hinside
  · rintro ⟨rfl, hquoted⟩
    exact splitTag_of_onlyQuoted hquoted behind

/-- Plain characters in front of a text are no tags. -/
theorem HasTags.of_dropWhile {insides : List (List Char)}
    (h : HasTags (text.dropWhile isPlain) insides) : HasTags text insides := by
  induction text with
  | nil => exact h
  | cons c text ih =>
    by_cases hc : isPlain c = true
    · rw [List.dropWhile_cons_of_pos hc] at h
      exact .plain hc (ih h)
    · rwa [List.dropWhile_cons_of_neg hc] at h

/-- A token is that of a tag. -/
theorem exists_of_readMarkup (h : readMarkup text = .ok (some token, behind)) :
    ∃ inside, text = inside ++ '>' :: behind ∧ (∀ c ∈ inside.head?, c ≠ '!' ∧ c ≠ '?') ∧
      OnlyQuoted ['>'] inside := by
  unfold readMarkup at h
  split at h
  · obtain ⟨_, -, hpair⟩ := map_eq_ok_iff.mp h
    cases hpair
  · obtain ⟨_, -, hpair⟩ := map_eq_ok_iff.mp h
    cases hpair
  next hdeclaration hinstruction =>
    split at h
    next inside rest hsplit =>
      cases h
      obtain ⟨rfl, hquoted⟩ := splitTag_none_iff.mp hsplit
      refine ⟨inside, rfl, fun c hc => ?_, hquoted⟩
      obtain ⟨tail, rfl⟩ := List.head?_eq_some_iff.mp hc
      exact ⟨fun hsame => hdeclaration _ (by rw [hsame]; rfl),
        fun hsame => hinstruction _ (by rw [hsame]; rfl)⟩
    next => cases h

/-- A reference ends at its first semicolon, in front of any other markup. -/
theorem eq_append_of_readReference {name : List Char}
    (h : readReference text = .ok (name, behind)) :
    text = name ++ ';' :: behind ∧ ∀ c ∈ name, c ≠ ';' ∧ c ≠ '&' ∧ c ≠ '<' := by
  unfold readReference at h
  dsimp only at h
  split at h
  next rest hrest =>
    cases h
    refine ⟨?_, fun c hc => ?_⟩
    · rw [← hrest, List.takeWhile_append_dropWhile]
    · simpa [and_assoc] using List.mem_takeWhile_imp hc
  next => cases h

/-- A text without a fault has tags. -/
theorem exists_hasTags (h : (scan text).2 = none) : ∃ insides, HasTags text insides := by
  fun_induction scan text with
  | case1 => exact ⟨[], .nil⟩
  | case2 | case4 => cases h
  | case3 rest token? behind hread tokens fault? hscan ih =>
    obtain ⟨insides, hinsides⟩ := ih (by rw [hscan]; exact h)
    cases token? with
    | none => exact ⟨insides, .silent hread hinsides⟩
    | some token =>
      obtain ⟨inside, rfl, hbegins, hquoted⟩ := exists_of_readMarkup hread
      exact ⟨inside :: insides, .tag hbegins hquoted hinsides⟩
  | case5 rest name behind hread tokens fault? hscan hopen ih =>
    obtain ⟨insides, hinsides⟩ := ih (by rw [hscan]; exact h)
    obtain ⟨rfl, hname⟩ := eq_append_of_readReference hread
    exact ⟨insides, .reference hname hinsides⟩
  | case6 c rest hopen hampersand tokens fault? hscan ih =>
    obtain ⟨insides, hinsides⟩ := ih (by rw [hscan]; exact h)
    have hplain : isPlain c = true := by simp [isPlain, hopen, hampersand]
    exact ⟨insides, .plain hplain hinsides.of_dropWhile⟩

/-- The token of a tag is a tag. -/
theorem isTag_tagToken (inside : List Char) : (tagToken inside).isTag = true := by
  unfold tagToken
  split
  · rfl
  · split <;> rfl

/-- The tags of a text are the same whatever plain characters are passed over. -/
theorem filter_isTag_scan_dropWhile (text : List Char) :
    (scan (text.dropWhile isPlain)).1.filter Token.isTag = (scan text).1.filter Token.isTag := by
  cases text with
  | nil => rfl
  | cons c text =>
    by_cases hc : isPlain c = true
    · rw [List.dropWhile_cons_of_pos hc, scan_plain hc]
      rfl
    · rw [List.dropWhile_cons_of_neg hc]

/-- The tags that are scanned are those of the text, in order. -/
theorem HasTags.filter_isTag_scan {insides : List (List Char)} (h : HasTags text insides) :
    (scan text).1.filter Token.isTag = insides.map tagToken := by
  induction h with
  | nil => rw [scan]; rfl
  | plain hc _ ih =>
    rw [scan_plain hc, ← ih, ← filter_isTag_scan_dropWhile]
    rfl
  | reference hname _ ih =>
    rw [scan_reference hname, ← ih]
    rfl
  | silent hread _ ih =>
    rw [scan_markup hread, ← ih]
    rfl
  | @tag inside text insides hbegins hquoted _ ih =>
    rw [List.cons_append, scan_markup (readMarkup_tag hbegins hquoted text), Option.toList_some,
      List.singleton_append, List.filter_cons_of_pos (isTag_tagToken inside), ih, List.map_cons]

end Scan

/-- The part of a header behind its name. -/
def attributeText (header : List Char) : List Char :=
  header.dropWhile (!isMarkupBlank ·)

/-- How an element is read from the header of its tag. Its attributes are the assignments that are
found there. They are all that stands there exactly if this is a list of assignments with distinct
keys. -/
structure IsReadFrom (element : Element) (header : List Char) : Prop where
  tag_eq : element.tag = String.ofList (header.takeWhile (!isMarkupBlank ·))
  assigns_found :
    List.Forall₂ Assigns element.attributes.entries (Tag.ofContent header).assignments
  assigns_written_iff :
    (∃ assignments, WritesAssignments assignments (attributeText header) ∧
      List.Forall₂ Assigns element.attributes.entries assignments) ↔
        IsAttributeList (attributeText header)

/-- Whether the inside of a tag opens an element that another tag closes. -/
def Opens (inside : List Char) : Prop :=
  inside.head? ≠ some '/' ∧ inside.getLast? ≠ some '/'

/-- Whether elements are read from tags with these insides, one behind the other. An element has
either one tag, with a slash behind its header, or two tags around those of its children. -/
inductive AreReadFrom : List Element → List (List Char) → Prop
  | nil : AreReadFrom [] []
  | void {element : Element} {elements : List Element} {header : List Char}
      {insides : List (List Char)} (hopens : (header ++ ['/']).head? ≠ some '/')
      (hread : IsReadFrom element header) (hchildren : element.children = [])
      (h : AreReadFrom elements insides) :
      AreReadFrom (element :: elements) ((header ++ ['/']) :: insides)
  | pair {element : Element} {elements : List Element} {header last : List Char}
      {within insides : List (List Char)} (hopens : Opens header)
      (hread : IsReadFrom element header) (hlast : IsBlank last)
      (hchildren : AreReadFrom element.children within)
      (h : AreReadFrom elements insides) :
      AreReadFrom (element :: elements)
        (header :: within ++ ('/' :: (element.tag.toList ++ last)) :: insides)

/-- Whether elements, innermost first, are left open behind tags with these insides, with the tags
of their children behind the tag that opens them. -/
inductive AreLeftOpen : List Element → List (List Char) → Prop
  | nil : AreLeftOpen [] []
  | within {element : Element} {outer : List Element} {header : List Char}
      {insides within : List (List Char)} (houter : AreLeftOpen outer insides)
      (hopens : Opens header) (hread : IsReadFrom element header)
      (hchildren : AreReadFrom element.children within) :
      AreLeftOpen (element :: outer) (insides ++ header :: within)

variable {element other : Element} {elements others outer : List Element} {inside : List Char}
  {insides behind : List (List Char)}

/-- What is read from a header does not depend on text and children. -/
theorem IsReadFrom.congr (h : IsReadFrom element inside) (htag : other.tag = element.tag)
    (hattributes : other.attributes = element.attributes) : IsReadFrom other inside where
  tag_eq := htag.trans h.tag_eq
  assigns_found := hattributes ▸ h.assigns_found
  assigns_written_iff := hattributes ▸ h.assigns_written_iff

/-- The element that a tag opens is read from the header of the tag. -/
theorem isReadFrom_of_ofTag (h : Element.ofTag (Tag.ofContent inside) = .ok element) :
    IsReadFrom element inside := by
  obtain ⟨attributes, hattributes, h⟩ := bind_eq_ok_iff.mp h
  cases h
  have hnodup := (nodup_readAssignments [] (attributeText inside)).1
  have hassigns := (Attributes.ofAssignments_eq_ok_iff hnodup).mp hattributes
  refine ⟨rfl, hassigns, ?_, fun hlist => ?_⟩
  · rintro ⟨assignments, hwrites, hwritten⟩
    exact ⟨assignments, hwrites, (nodup_iff_of_assigns hwritten).mp attributes.keys_nodup⟩
  · exact ⟨_, writesAssignments_readAssignments_iff.mpr hlist, hassigns⟩

/-- The element that a tag opens has no children. -/
theorem children_of_ofTag {tag : Tag} (h : Element.ofTag tag = .ok element) :
    element.children = [] := by
  obtain ⟨attributes, -, h⟩ := bind_eq_ok_iff.mp h
  cases h
  rfl

/-- Behind the name in a closing tag there are blanks only. -/
theorem exists_closingName_append (content : List Char) :
    ∃ last, IsBlank last ∧ content = closingName content ++ last := by
  rw [closingName]
  cases hdrop : content.reverse.dropWhile isMarkupBlank with
  | nil => exact ⟨[], by decide, (List.append_nil content).symm⟩
  | cons c trimmed =>
    refine ⟨(content.reverse.takeWhile isMarkupBlank).reverse, ?_, ?_⟩
    · rw [IsBlank, List.all_reverse]
      exact List.all_takeWhile
    · rw [← List.reverse_append, ← hdrop, List.takeWhile_append_dropWhile, List.reverse_reverse]

namespace AreReadFrom

/-- Elements are read one behind the other. -/
theorem append (h : AreReadFrom elements insides) (hbehind : AreReadFrom others behind) :
    AreReadFrom (elements ++ others) (insides ++ behind) := by
  induction h with
  | nil => exact hbehind
  | void hopens hread hchildren _ ih => exact .void hopens hread hchildren ih
  | pair hopens hread hlast hchildren _ _ ih =>
    rw [List.append_assoc]
    exact .pair hopens hread hlast hchildren ih

end AreReadFrom

namespace AreLeftOpen

/-- Text changes no header and no children. -/
theorem addText (h : AreLeftOpen (element :: outer) insides) (content : List Char) :
    AreLeftOpen (element.addText content :: outer) insides := by
  unfold Element.addText
  split
  · cases h with
    | within houter hopens hread hchildren =>
      exact .within houter hopens (hread.congr rfl rfl) hchildren
  · exact h

/-- The tags of one more child stand behind all others. -/
theorem addChild (h : AreLeftOpen (element :: outer) insides) {child : Element}
    (hchild : AreReadFrom [child] behind) :
    AreLeftOpen (element.addChild child :: outer) (insides ++ behind) := by
  cases h with
  | within houter hopens hread hchildren =>
    rw [List.append_assoc]
    exact .within houter hopens (hread.congr rfl rfl) (hchildren.append hchild)

/-- The tag that closes the innermost open element completes it. -/
theorem exists_completed (h : AreLeftOpen (element :: outer) insides) {last : List Char}
    (hlast : IsBlank last) (text : String) :
    ∃ front tags, insides ++ ['/' :: (element.tag.toList ++ last)] = front ++ tags ∧
      AreLeftOpen outer front ∧ AreReadFrom [{ element with text }] tags := by
  cases h with
  | @within _ _ header front within houter hopens hread hchildren =>
    refine ⟨front, header :: within ++ ['/' :: (element.tag.toList ++ last)], ?_, houter, ?_⟩
    · rw [List.append_assoc]
    · exact .pair hopens (hread.congr rfl rfl) hlast hchildren .nil

end AreLeftOpen

end Markup

namespace OpenElements

variable {state next final : OpenElements} {token : Token} {tokens : List Token}
  {inside : List Char} {insides behind : List (List Char)}

/-- Whether the open elements and the last root are read from tags with these insides: the tags of
all elements completed outside all others, and behind them those of the open elements. -/
def IsReadFrom (state : OpenElements) (insides : List (List Char)) : Prop :=
  ∃ roots closed opened, insides = closed ++ opened ∧ AreReadFrom roots closed ∧
    roots.getLast? = state.root? ∧ AreLeftOpen state.stack opened

/-- A completed element has the last tags. -/
theorem IsReadFrom.complete (h : state.IsReadFrom insides) {element : Element}
    (helement : AreReadFrom [element] behind) :
    (state.complete element).IsReadFrom (insides ++ behind) := by
  obtain ⟨stack, root?⟩ := state
  obtain ⟨roots, closed, opened, rfl, hclosed, hroot, hopened⟩ := h
  cases stack with
  | nil =>
    cases hopened
    refine ⟨roots ++ [element], closed ++ behind, [], ?_, hclosed.append helement, ?_, .nil⟩
    · rw [List.append_nil, List.append_nil]
    · exact List.getLast?_concat
  | cons parent outer =>
    exact ⟨roots, closed, opened ++ behind, List.append_assoc _ _ _, hclosed, hroot,
      hopened.addChild helement⟩

/-- A closing tag is read behind all others. -/
theorem IsReadFrom.close (h : state.IsReadFrom insides) {name : List Char}
    (hclose : state.close (closingName name) = .ok next) :
    next.IsReadFrom (insides ++ ['/' :: name]) := by
  obtain ⟨stack, root?⟩ := state
  unfold OpenElements.close at hclose
  cases stack with
  | nil => cases hclose
  | cons element outer =>
    dsimp only at hclose
    split at hclose
    next hname =>
      cases hclose
      obtain ⟨roots, closed, opened, rfl, hclosed, hroot, hopened⟩ := h
      obtain ⟨last, hlast, hcontent⟩ := exists_closingName_append name
      obtain ⟨front, tags, htags, hfront, helement⟩ :=
        hopened.exists_completed hlast (Text.trim element.text)
      have hclosing : '/' :: name = '/' :: (element.tag.toList ++ last) := by
        rw [← hname, String.toList_ofList, ← hcontent]
      have houter : IsReadFrom ⟨outer, root?⟩ (closed ++ front) :=
        ⟨roots, closed, front, rfl, hclosed, hroot, hfront⟩
      rw [hclosing, List.append_assoc, htags, ← List.append_assoc]
      exact houter.complete helement
    next => cases hclose

/-- A tag is read behind all others. -/
theorem IsReadFrom.read_tagToken (h : state.IsReadFrom insides)
    (hread : state.read (tagToken inside) = .ok next) : next.IsReadFrom (insides ++ [inside]) := by
  unfold tagToken at hread
  split at hread
  next name => exact h.close hread
  next hslash =>
    have hhead : inside.head? ≠ some '/' := by
      intro hhead
      obtain ⟨name, rfl⟩ := List.head?_eq_some_iff.mp hhead
      exact hslash name rfl
    split at hread
    next hlast =>
      obtain ⟨element, helement, hread⟩ := bind_eq_ok_iff.mp hread
      cases hread
      obtain ⟨header, rfl⟩ := List.getLast?_eq_some_iff.mp hlast
      rw [List.dropLast_concat] at helement
      exact h.complete
        (.void hhead (isReadFrom_of_ofTag helement) (children_of_ofTag helement) .nil)
    next hlast =>
      obtain ⟨element, helement, hread⟩ := bind_eq_ok_iff.mp hread
      cases hread
      obtain ⟨roots, closed, opened, rfl, hclosed, hroot, hopened⟩ := h
      refine ⟨roots, closed, opened ++ [inside], List.append_assoc _ _ _, hclosed, hroot, ?_⟩
      refine .within hopened ⟨hhead, hlast⟩ (isReadFrom_of_ofTag helement) ?_
      rw [children_of_ofTag helement]
      exact .nil

/-- What is no tag changes neither headers nor children. -/
theorem IsReadFrom.read_of_not_isTag (h : state.IsReadFrom insides) (htoken : token.isTag = false)
    (hread : state.read token = .ok next) : next.IsReadFrom insides := by
  obtain ⟨roots, closed, opened, rfl, hclosed, hroot, hopened⟩ := h
  suffices hnext : next.root? = state.root? ∧ AreLeftOpen next.stack opened from
    ⟨roots, closed, opened, rfl, hclosed, hroot.trans hnext.1.symm, hnext.2⟩
  obtain ⟨stack, root?⟩ := state
  cases token with
  | opening | void | closing => cases htoken
  | text content =>
    cases stack with
    | nil =>
      cases hread
      exact ⟨rfl, hopened⟩
    | cons element outer =>
      cases hread
      exact ⟨rfl, hopened.addText content⟩
  | reference name =>
    cases stack with
    | nil =>
      cases hread
      exact ⟨rfl, hopened⟩
    | cons element outer =>
      simp only [read] at hread
      split at hread
      · obtain ⟨resolved, -, hread⟩ := bind_eq_ok_iff.mp hread
        cases hread
        exact ⟨rfl, hopened.addText resolved⟩
      · cases hread
        exact ⟨rfl, hopened⟩

/-- Tags are read one behind the other, whatever stands between them. -/
theorem IsReadFrom.foldlM (h : state.IsReadFrom insides)
    (htags : tokens.filter Token.isTag = behind.map tagToken)
    (hread : tokens.foldlM read state = .ok final) : final.IsReadFrom (insides ++ behind) := by
  induction tokens generalizing state insides behind with
  | nil =>
    cases hread
    rw [List.map_eq_nil_iff.mp htags.symm, List.append_nil]
    exact h
  | cons token tokens ih =>
    rw [List.foldlM_cons] at hread
    obtain ⟨next, hnext, hrest⟩ := bind_eq_ok_iff.mp hread
    cases htoken : token.isTag with
    | false =>
      rw [List.filter_cons_of_neg (by simp [htoken])] at htags
      exact ih (h.read_of_not_isTag htoken hnext) htags hrest
    | true =>
      rw [List.filter_cons_of_pos htoken] at htags
      obtain ⟨inside, others, rfl, rfl, hothers⟩ := List.map_eq_cons_iff.mp htags.symm
      rw [List.append_cons]
      exact ih (h.read_tagToken hnext) hothers.symm hrest

end OpenElements

namespace Markup

/-- A text behind its byte order mark, if it has one. -/
def withoutMark : List Char → List Char
  | [] => []
  | c :: rest => if c = byteOrderMark then rest else c :: rest

/-- What is scanned stands behind the byte order mark. -/
theorem scanText_eq (text : List Char) : scanText text = scan (withoutMark text) := by
  cases text with
  | nil => rfl
  | cons c rest =>
    rw [scanText, withoutMark]
    split <;> rfl

end Markup

/-- The tags of a text from which a document is read are, without a gap, those of elements outside
all others and of all elements inside these, and behind them those of elements that are left open.
The last one outside all others is the root. Each element has the name and the assignments in its
own tag, and none of these is lost exactly if the tag has a list of assignments with distinct keys.
What a tag has besides is never an error: only a value that cannot be resolved is one. -/
theorem Document.exists_areReadFrom {text : String} {document : Document}
    (h : parse text = .ok document) :
    (∃ insides, HasTags (withoutMark text.toList) insides) ∧
    (∀ insides, HasTags (withoutMark text.toList) insides →
      ∃ earlier root stack closed opened, insides = closed ++ opened ∧
        AreReadFrom (earlier ++ [root]) closed ∧ AreLeftOpen stack opened ∧
          document = ofRoot root) ∧
    ∀ header, (∃ element, Element.ofTag (Tag.ofContent header) = .ok element) ↔
      ∀ assignment ∈ (Tag.ofContent header).assignments,
        ∃ value, resolve assignment.2 = .ok value := by
  rw [parse, scanText_eq] at h
  obtain ⟨state, hread, h⟩ := bind_eq_ok_iff.mp h
  obtain ⟨stack, root?⟩ := state
  cases hfault : (scan (withoutMark text.toList)).2 with
  | some fault => rw [hfault] at h; cases h
  | none =>
    rw [hfault] at h
    cases root? with
    | none => cases h
    | some root =>
      cases h
      refine ⟨exists_hasTags hfault, fun insides hinsides => ?_, fun header => ?_⟩
      · have hstart : OpenElements.IsReadFrom {} [] := ⟨[], [], [], rfl, .nil, rfl, .nil⟩
        obtain ⟨roots, closed, opened, hinsides, hclosed, hroot, hopened⟩ :=
          hstart.foldlM hinsides.filter_isTag_scan hread
        obtain ⟨earlier, rfl⟩ := List.getLast?_eq_some_iff.mp hroot
        exact ⟨earlier, root, stack, closed, opened, hinsides, hclosed, hopened, rfl⟩
      · rw [← Attributes.exists_ofAssignments_iff]
        simp only [Element.ofTag, bind_eq_ok_iff, Except.ok.injEq]
        constructor
        · rintro ⟨element, attributes, hattributes, -⟩
          exact ⟨attributes, hattributes⟩
        · rintro ⟨attributes, hattributes⟩
          exact ⟨_, attributes, hattributes, rfl⟩

/-- The document of one element without content inside another one. -/
theorem Document.parse_of_scanText {text : String} (assignments : List (List Char × List Char))
    (attributes : Attributes)
    (hscan : scanText text.toList =
      ([.opening ⟨['a'], []⟩, .void ⟨['b'], assignments⟩, .closing ['a']], none))
    (hattributes : Attributes.ofAssignments assignments = .ok attributes) :
    parse text = .ok ⟨none, [⟨"b", attributes, "", []⟩]⟩ := by
  have hread : OpenElements.read ⟨[⟨"a", OrderedMap.empty, "", []⟩], none⟩
      (.void ⟨['b'], assignments⟩) =
        .ok ⟨[⟨"a", OrderedMap.empty, "", [⟨"b", attributes, "", []⟩]⟩], none⟩ :=
    bind_eq_ok_iff.mpr ⟨_, bind_eq_ok_iff.mpr ⟨attributes, hattributes, rfl⟩, rfl⟩
  have hrun : [.opening ⟨['a'], []⟩, .void ⟨['b'], assignments⟩, .closing ['a']].foldlM
      OpenElements.read {} =
        .ok ⟨[], some ⟨"a", OrderedMap.empty, Text.trim "", [⟨"b", attributes, "", []⟩]⟩⟩ :=
    bind_eq_ok_iff.mpr ⟨_, rfl, bind_eq_ok_iff.mpr ⟨_, hread, rfl⟩⟩
  rw [parse, hscan]
  dsimp only
  rw [hrun]
  rfl

/-- What is read from tags with a quoted value in the inner one. -/
theorem Document.exists_areReadFrom_quoted :
    parse "<a><b x='1'/></a>" = .ok ⟨none, [⟨"b", .ofList [("x", "1")], "", []⟩]⟩ ∧
    HasTags (withoutMark "<a><b x='1'/></a>".toList) [['a'], "b x='1'/".toList, ['/', 'a']] ∧
    IsAttributeList (attributeText "b x='1'".toList) ∧
    ∃ earlier root stack closed opened,
      [['a'], "b x='1'/".toList, ['/', 'a']] = closed ++ opened ∧
        AreReadFrom (earlier ++ [root]) closed ∧ AreLeftOpen stack opened ∧
          ⟨none, [⟨"b", .ofList [("x", "1")], "", []⟩]⟩ = ofRoot root := by
  have hparse : parse "<a><b x='1'/></a>" = .ok ⟨none, [⟨"b", .ofList [("x", "1")], "", []⟩]⟩ :=
    parse_of_scanText [(['x'], ['1'])] _ (by decide +kernel) (by decide +kernel)
  have hquoted : OnlyQuoted ['>'] "b x='1'/".toList := by
    have hvalue : OnlyQuoted ['>'] ('\'' :: ['1'] ++ '\'' :: ['/']) :=
      .inside (by decide) (by decide) (.outside (by decide) (by decide) .nil)
    exact .outside (by decide) (by decide) (.outside (by decide) (by decide)
      (.outside (by decide) (by decide) (.outside (by decide) (by decide) hvalue)))
  have houter : OnlyQuoted ['>'] ['a'] := .outside (by decide) (by decide) .nil
  have hslash : OnlyQuoted ['>'] ['/', 'a'] := .outside (by decide) (by decide) houter
  have hclosing : HasTags "</a>".toList [['/', 'a']] := .tag (by simp) hslash .nil
  have htags : HasTags (withoutMark "<a><b x='1'/></a>".toList)
      [['a'], "b x='1'/".toList, ['/', 'a']] :=
    .tag (by simp) houter (.tag (by simp) hquoted hclosing)
  have hlist : WritesAssignments [(['x'], ['1'])]
      ([' '] ++ ['x'] ++ [] ++ '=' :: [] ++ '\'' :: ['1'] ++ '\'' :: []) :=
    .cons rfl rfl nofun rfl rfl rfl (by decide) (.nil rfl)
  exact ⟨hparse, htags, ⟨_, hlist, by decide⟩, (exists_areReadFrom hparse).2.1 _ htags⟩

/-- A value without quotes, a key without a value and a repeated key are dropped without an
error. -/
theorem Document.not_isAttributeList_unquoted :
    (parse "<a><b x=1 y='2'/></a>" = .ok ⟨none, [⟨"b", .ofList [("y", "2")], "", []⟩]⟩ ∧
      ¬IsAttributeList (attributeText "b x=1 y='2'".toList)) ∧
    parse "<a><b y/></a>" = .ok ⟨none, [⟨"b", .empty, "", []⟩]⟩ ∧
    parse "<a><b x='1' x='2'/></a>" = .ok ⟨none, [⟨"b", .ofList [("x", "1")], "", []⟩]⟩ := by
  refine ⟨⟨parse_of_scanText [(['y'], ['2'])] _ (by decide +kernel) (by decide +kernel), ?_⟩,
    parse_of_scanText [] _ (by decide +kernel) (by decide +kernel),
    parse_of_scanText [(['x'], ['1'])] _ (by decide +kernel) (by decide +kernel)⟩
  rintro ⟨assignments, hwrites, -⟩
  rcases hwrites.cases_finds with ⟨-, hblank⟩ | ⟨_, _, _, _, -, hfinds, -⟩
  · exact absurd hblank (by decide)
  · obtain ⟨_, _, _, _, _, hkey, hequals, hvalue, hquote, -⟩ := hfinds
    cases hkey
    cases hequals
    cases hvalue
    cases hquote

end NifBindings
