import Mathlib.Data.List.TakeWhile
import NifBindings.Proofs.Markup.References
import NifBindings.Proofs.OrderedMap

/-!
# Reading tags

A tag reaches up to its closing bracket, which no value hides. What stands in it is read as the name
and the attributes that it writes, in their order and with their values resolved.
-/

namespace NifBindings

namespace Markup

section Names

variable {c d : Char} {name text : List Char}

/-- A character of a name is none that names cannot have. -/
theorem ne_of_isNameChar (hc : isNameChar c = true) (hd : isNameChar d = false) : c ≠ d := by
  rintro rfl
  rw [hc] at hd
  cases hd

/-- A name begins with a character, and all its characters can stand in a name. -/
theorem IsName.exists_cons (h : IsName name) :
    ∃ first rest, name = first :: rest ∧ ∀ c ∈ first :: rest, isNameChar c = true := by
  obtain ⟨first, rest, rfl, hfirst, hrest⟩ := h
  refine ⟨first, rest, rfl, List.forall_mem_cons.mpr ⟨?_, List.all_eq_true.mp hrest⟩⟩
  rw [isNameChar, hfirst]
  rfl

/-- The characters of a name can stand in a name. -/
theorem IsName.isNameChar_of_mem (h : IsName name) : ∀ c ∈ name, isNameChar c = true := by
  obtain ⟨first, rest, rfl, hchars⟩ := h.exists_cons
  exact hchars

/-- A name has no character that names cannot have. -/
theorem IsName.not_mem (h : IsName name) (hd : isNameChar d = false) : d ∉ name :=
  fun hmem => ne_of_isNameChar (h.isNameChar_of_mem d hmem) hd rfl

/-- No blank can stand in a name. -/
theorem isMarkupBlank_of_isNameChar (hc : isNameChar c = true) : isMarkupBlank c = false := by
  simp only [isMarkupBlank, Bool.or_eq_false_iff, beq_eq_false_iff_ne]
  exact ⟨⟨⟨ne_of_isNameChar hc (by decide), ne_of_isNameChar hc (by decide)⟩,
    ne_of_isNameChar hc (by decide)⟩, ne_of_isNameChar hc (by decide)⟩

/-- No quote can stand in a name. -/
theorem isQuote_of_isNameChar (hc : isNameChar c = true) : isQuote c = false := by
  simp only [isQuote, Bool.or_eq_false_iff, beq_eq_false_iff_ne]
  exact ⟨ne_of_isNameChar hc (by decide), ne_of_isNameChar hc (by decide)⟩

/-- Blanks are blank. -/
theorem IsBlank.isMarkupBlank_of_mem (h : IsBlank text) : ∀ c ∈ text, isMarkupBlank c = true :=
  List.all_eq_true.mp h

/-- A blank is none of the other characters. -/
theorem ne_of_isMarkupBlank (hc : isMarkupBlank c = true) (hd : isMarkupBlank d = false) :
    c ≠ d := by
  rintro rfl
  rw [hc] at hd
  cases hd

/-- A blank is no quote. -/
theorem isQuote_of_isMarkupBlank (hc : isMarkupBlank c = true) : isQuote c = false := by
  simp only [isQuote, Bool.or_eq_false_iff, beq_eq_false_iff_ne]
  exact ⟨ne_of_isMarkupBlank hc (by decide), ne_of_isMarkupBlank hc (by decide)⟩

end Names

section Hidden

variable {hidden a b : List Char}

/-- Texts with some characters in quotes only have them in quotes only together. -/
theorem OnlyQuoted.append (ha : OnlyQuoted hidden a) (hb : OnlyQuoted hidden b) :
    OnlyQuoted hidden (a ++ b) := by
  induction ha with
  | nil => exact hb
  | outside hquote hc _ ih => exact .outside hquote hc ih
  | @inside quote body text hquote hbody _ ih =>
    have hinside := OnlyQuoted.inside hquote hbody ih
    simpa using hinside

/-- A text without quotes and some characters has these in quotes only. -/
theorem onlyQuoted_of_forall (h : ∀ c ∈ a, isQuote c = false ∧ c ∉ hidden) :
    OnlyQuoted hidden a := by
  induction a with
  | nil => exact .nil
  | cons c a ih =>
    obtain ⟨hc, ha⟩ := List.forall_mem_cons.mp h
    exact .outside hc.1 hc.2 (ih ha)

/-- A name has neither quotes nor any characters that names cannot have. -/
theorem IsName.onlyQuoted (h : IsName a) (hhidden : hidden.any isNameChar = false) :
    OnlyQuoted hidden a :=
  onlyQuoted_of_forall fun c hc => ⟨isQuote_of_isNameChar (h.isNameChar_of_mem c hc),
    fun hmem => List.any_eq_false.mp hhidden c hmem (h.isNameChar_of_mem c hc)⟩

/-- Blanks are neither quotes nor any other characters. -/
theorem IsBlank.onlyQuoted (h : IsBlank a) (hhidden : hidden.any isMarkupBlank = false) :
    OnlyQuoted hidden a :=
  onlyQuoted_of_forall fun c hc => ⟨isQuote_of_isMarkupBlank (h.isMarkupBlank_of_mem c hc),
    fun hmem => List.any_eq_false.mp hhidden c hmem (h.isMarkupBlank_of_mem c hc)⟩

/-- Behind a quote a tag goes on up to the next one. -/
theorem splitTag_quoted {quote : Char} (hquote : quote ∉ a) :
    splitTag (some quote) (a ++ quote :: b) =
      (splitTag none b).map fun (inside, behind) => (a ++ quote :: inside, behind) := by
  induction a with
  | nil => simp [splitTag]
  | cons c a ih =>
    rw [List.mem_cons, not_or] at hquote
    have hc : c ≠ quote := fun h => hquote.1 h.symm
    rw [List.cons_append, splitTag, if_neg (by simp)]
    simp only [hc, if_false, ih hquote.2]
    cases splitTag none b <;> rfl

/-- A tag reaches up to the first closing bracket that is not in quotes. -/
theorem splitTag_of_onlyQuoted (h : OnlyQuoted ['>'] a) (rest : List Char) :
    splitTag none (a ++ '>' :: rest) = .ok (a, rest) := by
  induction h with
  | nil => simp [splitTag]
  | @outside c text hquote hc _ ih =>
    rw [List.cons_append, splitTag, if_neg (by simpa using hc)]
    simp [hquote, ih, Except.map]
  | @inside quote body text hquote hbody _ ih =>
    have hne : quote ≠ '>' := by
      rintro rfl
      cases hquote
    rw [List.append_assoc, List.cons_append, List.cons_append, splitTag, if_neg (by simp [hne])]
    simp [hquote, splitTag_quoted hbody, ih, Except.map]

end Hidden

section Attributes

variable {key written rest front middle back behind : List Char} {quote : Char}

/-- A value has no quotes of its own kind. -/
theorem WritesValue.not_mem {content text : List Char} (hquote : isQuote quote = true)
    (h : WritesValue quote content text) : quote ∉ text := by
  have halphanum : quote.isAlphanum = false ∧ quote ≠ '#' ∧ quote ≠ '&' ∧ quote ≠ ';' := by
    simp only [isQuote, Bool.or_eq_true, beq_iff_eq] at hquote
    rcases hquote with rfl | rfl <;> decide
  unfold WritesValue at h
  induction h with
  | nil => simp
  | itself hc _ ih =>
    rw [List.mem_cons, not_or]
    exact ⟨fun hsame => by simp [hsame] at hc, ih⟩
  | reference hname _ ih =>
    have hin := fun hmem => hname.ne_of_mem hmem ⟨halphanum.1, halphanum.2.1⟩ rfl
    simp only [List.cons_append, List.mem_cons, List.mem_append, not_or]
    exact ⟨halphanum.2.2.1, hin, halphanum.2.2.2, ih⟩
  | skip haside => exact haside.elim

/-- Attributes have closing brackets in quotes only. -/
theorem WritesAttributes.onlyQuoted {entries : List (String × String)} {text : List Char}
    (h : WritesAttributes entries text) : OnlyQuoted ['>'] text := by
  induction h with
  | nil => exact .nil
  | cons _ hfront hkey hmiddle hback hquote hvalue _ ih =>
    have hequals : OnlyQuoted ['>'] ('=' :: _) :=
      .outside (by decide) (by decide) (hback.onlyQuoted (by decide))
    have hvalue := OnlyQuoted.inside hquote (hvalue.not_mem hquote) ih
    have htext := ((((hfront.onlyQuoted (by decide)).append (hkey.onlyQuoted (by decide))).append
      (hmiddle.onlyQuoted (by decide))).append hequals).append hvalue
    simpa using htext

/-- Whether a text begins with an assignment of a value to a key, in front of the rest. -/
def FindsAssignment (text key value rest : List Char) : Prop :=
  ∃ first afterStart afterEquals quote body,
    text.dropWhile isMarkupBlank = first :: afterStart ∧
    (afterStart.dropWhile isKeyChar).dropWhile isMarkupBlank = '=' :: afterEquals ∧
    afterEquals.dropWhile isMarkupBlank = quote :: body ∧ isQuote quote = true ∧
    body.dropWhile (· != quote) = quote :: rest ∧
    key = first :: afterStart.takeWhile isKeyChar ∧ value = body.takeWhile (· != quote)

/-- An assignment to a new key is read. -/
theorem FindsAssignment.readAssignments_eq {seen : List (List Char)} {text value : List Char}
    (h : FindsAssignment text key value rest) (hseen : key ∉ seen) :
    readAssignments seen text = (key, value) :: readAssignments (key :: seen) rest := by
  obtain ⟨first, afterStart, afterEquals, quote, body, hkey, hequals, hvalue, hquote, hclose, rfl,
    rfl⟩ := h
  rw [readAssignments]
  split
  next h => cases hkey.symm.trans h
  next h =>
    cases hkey.symm.trans h
    split
    next h => cases hequals.symm.trans h
    next h =>
      cases hequals.symm.trans h
      rw [if_neg (not_not.mpr rfl), if_neg hseen]
      split
      next h => cases hvalue.symm.trans h
      next h =>
        cases hvalue.symm.trans h
        rw [if_pos hquote]
        split
        next h => cases hclose.symm.trans h
        next h =>
          cases hclose.symm.trans h
          rfl

/-- A name can be a key. -/
theorem IsName.exists_key (h : IsName key) :
    ∃ first tail, key = first :: tail ∧ isMarkupBlank first = false ∧
      ∀ c ∈ tail, isKeyChar c = true := by
  obtain ⟨first, tail, rfl, hchars⟩ := h.exists_cons
  obtain ⟨hfirst, htail⟩ := List.forall_mem_cons.mp hchars
  refine ⟨first, tail, rfl, isMarkupBlank_of_isNameChar hfirst, fun c hc => ?_⟩
  rw [isKeyChar, isMarkupBlank_of_isNameChar (htail c hc)]
  simpa using ne_of_isNameChar (htail c hc) (by decide)

/-- An assignment is found where it is written. -/
theorem findsAssignment_append {first : Char} {tail : List Char} (hfront : IsBlank front)
    (hfirst : isMarkupBlank first = false) (htail : ∀ c ∈ tail, isKeyChar c = true)
    (hmiddle : IsBlank middle) (hback : IsBlank back) (hquote : isQuote quote = true)
    (hwritten : quote ∉ written) :
    FindsAssignment
      (front ++ first :: tail ++ middle ++ '=' :: back ++ quote :: written ++ quote :: rest)
      (first :: tail) written rest := by
  have hkeyEnd (behind : List Char) :
      ∀ c ∈ (middle ++ '=' :: behind).head?, isKeyChar c = false := by
    cases middle with
    | nil => simp [isKeyChar]
    | cons c middle => simp [isKeyChar, hmiddle.isMarkupBlank_of_mem c List.mem_cons_self]
  have hquoteBlank : isMarkupBlank quote = false := by
    simp only [isQuote, Bool.or_eq_true, beq_iff_eq] at hquote
    rcases hquote with rfl | rfl <;> decide
  have hbody : ∀ c ∈ written, (c != quote) = true := by
    intro c hc
    rw [bne_iff_ne]
    rintro rfl
    exact hwritten hc
  have hbodyEnd : ∀ c ∈ (quote :: rest).head?, (c != quote) = false := by simp
  simp only [List.append_assoc, List.cons_append]
  refine ⟨_, _, _, _, _,
    dropWhile_append_of_head hfront.isMarkupBlank_of_mem (by simpa using hfirst),
    (congrArg _ (dropWhile_append_of_head htail (hkeyEnd _))).trans
      (dropWhile_append_of_head hmiddle.isMarkupBlank_of_mem (by simp [isMarkupBlank])),
    dropWhile_append_of_head hback.isMarkupBlank_of_mem (by simpa using hquoteBlank), hquote,
    dropWhile_append_of_head hbody hbodyEnd, ?_, ?_⟩
  · rw [takeWhile_append_of_head htail (hkeyEnd _)]
  · rw [takeWhile_append_of_head hbody hbodyEnd]

/-- Nothing is read from blanks. -/
theorem readAssignments_blank {seen : List (List Char)} (hbehind : IsBlank behind) :
    readAssignments seen behind = [] := by
  have hnone : behind.dropWhile isMarkupBlank = [] :=
    List.dropWhile_eq_nil_iff.mpr hbehind.isMarkupBlank_of_mem
  rw [readAssignments]
  split
  · rfl
  next h =>
    rw [hnone] at h
    cases h

/-- Whether an assignment has the key of an attribute, and a value that is resolved to its value. -/
def Assigns (entry : String × String) (assignment : List Char × List Char) : Prop :=
  assignment.1 = entry.1.toList ∧ resolve assignment.2 = .ok entry.2.toList

/-- Attributes are read as assignments that assign them in order, if their keys are new. -/
theorem WritesAttributes.exists_assignments {entries : List (String × String)} {text : List Char}
    (h : WritesAttributes entries text) (hbehind : IsBlank behind) :
    ∃ assignments, List.Forall₂ Assigns entries assignments ∧
      ∀ seen, (entries.map Prod.fst).Nodup → (∀ entry ∈ entries, entry.1.toList ∉ seen) →
        readAssignments seen (text ++ behind) = assignments := by
  induction h with
  | nil => exact ⟨[], .nil, fun seen _ _ => readAssignments_blank hbehind⟩
  | @cons key value entries quote front middle back written text hne hfront hkey hmiddle hback
      hquote hvalue _ ih =>
    obtain ⟨assignments, hassigns, hread⟩ := ih
    refine ⟨(key.toList, written) :: assignments, .cons ⟨rfl, resolve_of_writesValue hvalue⟩
      hassigns, fun seen hnodup hseen => ?_⟩
    rw [List.map_cons, List.nodup_cons] at hnodup
    obtain ⟨hkeySeen, hrestSeen⟩ := List.forall_mem_cons.mp hseen
    obtain ⟨first, tail, hchars, hfirst, htail⟩ := hkey.exists_key
    have hfinds := @findsAssignment_append _ (text ++ behind) _ _ _ _ _ _ hfront hfirst htail
      hmiddle hback hquote (hvalue.not_mem hquote)
    rw [← hchars] at hfinds
    simp only [List.append_assoc, List.cons_append] at hfinds ⊢
    rw [hfinds.readAssignments_eq hkeySeen, hread (key.toList :: seen) hnodup.2]
    intro entry hentry
    rw [List.mem_cons, not_or]
    refine ⟨fun hsame => hnodup.1 ?_, hrestSeen entry hentry⟩
    exact List.mem_map.mpr ⟨entry, hentry, String.toList_inj.mp hsame⟩

/-- Assignments are inserted in order, with their values resolved. -/
theorem foldlM_of_assigns {entries : List (String × String)}
    {assignments : List (List Char × List Char)} (h : List.Forall₂ Assigns entries assignments)
    (attributes : Attributes) :
    assignments.foldlM (fun attributes (key, value) => do
        let resolved ← (resolve value).mapError InputError.reference
        .ok (attributes.insert (String.ofList key) (String.ofList resolved))) attributes =
      .ok (entries.foldl (fun map entry => map.insert entry.1 entry.2) attributes) := by
  induction h generalizing attributes with
  | nil => rfl
  | @cons entry assignment entries assignments hassigns _ ih =>
    obtain ⟨key, value⟩ := assignment
    obtain ⟨hkey, hvalue⟩ := hassigns
    dsimp only at hkey hvalue
    have hstep : (do
        let resolved ← (resolve value).mapError InputError.reference
        .ok (attributes.insert (String.ofList key) (String.ofList resolved))) =
        Except.ok (attributes.insert entry.1 entry.2) :=
      bind_eq_ok_iff.mpr ⟨entry.2.toList, mapError_eq_ok_iff.mpr hvalue, by simp [hkey]⟩
    exact bind_eq_ok_iff.mpr ⟨_, hstep, ih _⟩

/-- Assignments that assign the entries of a map in order give this map. -/
theorem ofAssignments_of_assigns {attributes : Attributes}
    {assignments : List (List Char × List Char)}
    (h : List.Forall₂ Assigns attributes.entries assignments) :
    Attributes.ofAssignments assignments = .ok attributes := by
  rw [Attributes.ofAssignments, foldlM_of_assigns h]
  exact congrArg _ (OrderedMap.ofList_entries attributes)

end Attributes

section Tokens

variable {element : Element} {tag : Tag} {name assigned behind rest : List Char}

/-- Attributes begin with a blank, if there are any. -/
theorem WritesAttributes.isMarkupBlank_of_mem_head? {entries : List (String × String)}
    {text : List Char} (h : WritesAttributes entries text) (hbehind : IsBlank behind) :
    ∀ c ∈ (text ++ behind).head?, isMarkupBlank c = true := by
  cases h with
  | nil => exact fun c hc => hbehind.isMarkupBlank_of_mem c (List.mem_of_mem_head? hc)
  | @cons _ _ _ _ front _ _ _ _ hne hfront =>
    obtain ⟨c, front, rfl⟩ := List.exists_cons_of_ne_nil hne
    simpa using hfront.isMarkupBlank_of_mem c List.mem_cons_self

/-- Attributes end in a quote, if there are any. -/
theorem WritesAttributes.isQuote_of_mem_getLast? {entries : List (String × String)}
    {text : List Char} (h : WritesAttributes entries text) :
    ∀ c ∈ text.getLast?, isQuote c = true := by
  induction h with
  | nil => simp
  | @cons _ _ _ quote _ _ _ _ text _ _ _ _ _ hquote _ _ ih =>
    intro c hc
    rw [List.getLast?_append, List.getLast?_cons] at hc
    cases hlast : text.getLast? with
    | none =>
      rw [hlast] at hc
      cases hc
      exact hquote
    | some last =>
      rw [hlast] at hc
      cases hc
      exact ih _ hlast

/-- The inside of a tag does not end in a slash. -/
theorem WritesAttributes.getLast?_ne {entries : List (String × String)}
    (h : WritesAttributes entries assigned) (hname : IsName name) (hbehind : IsBlank behind) :
    (name ++ assigned ++ behind).getLast? ≠ some '/' := by
  intro hlast
  rw [List.getLast?_append, List.getLast?_append, Option.or_eq_some_iff] at hlast
  rcases hlast with hlast | ⟨-, hlast⟩
  · cases hbehind.isMarkupBlank_of_mem '/' (List.mem_of_getLast? hlast)
  · rw [Option.or_eq_some_iff] at hlast
    rcases hlast with hlast | ⟨-, hlast⟩
    · cases h.isQuote_of_mem_getLast? '/' hlast
    · exact hname.not_mem (by decide) (List.mem_of_getLast? hlast)

/-- The inside of a tag is read as the name and the attributes that it writes. -/
theorem ofTag_ofContent (hname : IsName element.tag.toList)
    (hassigned : WritesAttributes element.attributes.entries assigned) (hbehind : IsBlank behind) :
    Element.ofTag (Tag.ofContent (element.tag.toList ++ assigned ++ behind)) =
      .ok { element with text := "", children := [] } := by
  obtain ⟨assignments, hassigns, hread⟩ := hassigned.exists_assignments hbehind
  have hrun : ∀ c ∈ element.tag.toList, (!isMarkupBlank c) = true := fun c hc => by
    rw [isMarkupBlank_of_isNameChar (hname.isNameChar_of_mem c hc)]
    rfl
  have hend : ∀ c ∈ (assigned ++ behind).head?, (!isMarkupBlank c) = false := fun c hc => by
    rw [hassigned.isMarkupBlank_of_mem_head? hbehind c hc]
    rfl
  rw [List.append_assoc, Tag.ofContent, takeWhile_append_of_head hrun hend,
    dropWhile_append_of_head hrun hend,
    hread [] element.attributes.keys_nodup (fun _ _ => List.not_mem_nil)]
  rw [Element.ofTag, ofAssignments_of_assigns hassigns, String.ofList_toList]
  rfl

/-- The inside of a tag has closing brackets in quotes only. -/
theorem WritesAttributes.onlyQuoted_tag {entries : List (String × String)}
    (h : WritesAttributes entries assigned) (hname : IsName name) (hbehind : IsBlank behind) :
    OnlyQuoted ['>'] (name ++ assigned ++ behind) :=
  ((hname.onlyQuoted (by decide)).append h.onlyQuoted).append (hbehind.onlyQuoted (by decide))

/-- Markup that begins neither a declaration nor an instruction is a tag, up to its first closing
bracket outside quotes. -/
theorem readMarkup_tag {inside : List Char} (hbegins : ∀ c ∈ inside.head?, c ≠ '!' ∧ c ≠ '?')
    (hinside : OnlyQuoted ['>'] inside) (rest : List Char) :
    readMarkup (inside ++ '>' :: rest) = .ok (some (tagToken inside), rest) := by
  have hfirst {c : Char} {behind : List Char} (h : inside ++ '>' :: rest = c :: behind) :
      c ≠ '!' ∧ c ≠ '?' := by
    cases inside with
    | nil =>
      cases h
      decide
    | cons d inside =>
      cases h
      exact hbegins _ rfl
  unfold readMarkup
  split
  next heq => exact absurd rfl (hfirst heq).1
  next heq => exact absurd rfl (hfirst heq).2
  · rw [splitTag_of_onlyQuoted hinside]

/-- Markup that begins like a name is a tag. -/
theorem readMarkup_of_isName (hname : IsName name) {inside : List Char}
    (hinside : OnlyQuoted ['>'] (name ++ inside)) (rest : List Char) :
    readMarkup (name ++ inside ++ '>' :: rest) = .ok (some (tagToken (name ++ inside)), rest) := by
  obtain ⟨first, tail, rfl, hchars⟩ := hname.exists_cons
  have hfirst := hchars first List.mem_cons_self
  refine readMarkup_tag (fun c hc => ?_) hinside rest
  cases hc
  exact ⟨ne_of_isNameChar hfirst (by decide), ne_of_isNameChar hfirst (by decide)⟩

/-- A tag that begins like a name opens an element if it does not end in a slash, and is one
otherwise. -/
theorem tagToken_of_isName (hname : IsName name) (inside : List Char) :
    tagToken (name ++ inside) =
      if (name ++ inside).getLast? = some '/' then .void (Tag.ofContent (name ++ inside).dropLast)
      else .opening (Tag.ofContent (name ++ inside)) := by
  obtain ⟨first, tail, rfl, hchars⟩ := hname.exists_cons
  unfold tagToken
  split
  next heq =>
    cases heq
    exact absurd (hchars '/' List.mem_cons_self) (by decide)
  · rfl

/-- The tag in front of an element is read as one that opens this element. -/
theorem exists_opening (hname : IsName element.tag.toList)
    (hassigned : WritesAttributes element.attributes.entries assigned) (hbehind : IsBlank behind)
    (rest : List Char) :
    ∃ tag, Element.ofTag tag = .ok { element with text := "", children := [] } ∧
      readMarkup (element.tag.toList ++ (assigned ++ behind) ++ '>' :: rest) =
        .ok (some (.opening tag), rest) := by
  have hquoted := hassigned.onlyQuoted_tag hname hbehind
  have hlast := hassigned.getLast?_ne hname hbehind
  rw [List.append_assoc] at hquoted hlast
  refine ⟨_, ofTag_ofContent hname hassigned hbehind, ?_⟩
  rw [readMarkup_of_isName hname hquoted, tagToken_of_isName hname, if_neg hlast,
    List.append_assoc]

/-- The tag of an element without text and children is read as this element. -/
theorem exists_void (hname : IsName element.tag.toList)
    (hassigned : WritesAttributes element.attributes.entries assigned) (hbehind : IsBlank behind)
    (rest : List Char) :
    ∃ tag, Element.ofTag tag = .ok { element with text := "", children := [] } ∧
      readMarkup (element.tag.toList ++ (assigned ++ behind ++ ['/']) ++ '>' :: rest) =
        .ok (some (.void tag), rest) := by
  have hslash : OnlyQuoted ['>'] ['/'] := .outside (by decide) (by decide) .nil
  have hquoted := (hassigned.onlyQuoted_tag hname hbehind).append hslash
  simp only [List.append_assoc] at hquoted
  refine ⟨_, ofTag_ofContent hname hassigned hbehind, ?_⟩
  have hlast : (element.tag.toList ++ (assigned ++ behind ++ ['/'])).getLast? = some '/' := by simp
  rw [readMarkup_of_isName hname (by simpa using hquoted), tagToken_of_isName hname, if_pos hlast,
    ← List.append_assoc, List.dropLast_concat, List.append_assoc]

/-- The blanks behind a name are no part of it. -/
theorem closingName_append (hname : IsName name) (hbehind : IsBlank behind) :
    closingName (name ++ behind) = name := by
  have hblank : ∀ c ∈ behind.reverse, isMarkupBlank c = true :=
    fun c hc => hbehind.isMarkupBlank_of_mem c (List.mem_reverse.mp hc)
  have hlast : ∀ c ∈ name.reverse.head?, isMarkupBlank c = false := fun c hc =>
    isMarkupBlank_of_isNameChar
      (hname.isNameChar_of_mem c (List.mem_reverse.mp (List.mem_of_mem_head? hc)))
  have hne : name ≠ [] := by
    obtain ⟨first, tail, rfl, -⟩ := hname.exists_cons
    exact List.cons_ne_nil first tail
  rw [closingName, List.reverse_append, dropWhile_append_of_head hblank hlast]
  split
  next hnil => exact absurd (List.reverse_eq_nil_iff.mp hnil) hne
  next => exact List.reverse_reverse name

/-- The tag behind an element is read as one that closes it. -/
theorem readMarkup_closing (hname : IsName name) (hbehind : IsBlank behind) (rest : List Char) :
    readMarkup ('/' :: (name ++ behind) ++ '>' :: rest) = .ok (some (.closing name), rest) := by
  have hquoted : OnlyQuoted ['>'] ('/' :: (name ++ behind)) :=
    .outside (by decide) (by decide)
      ((hname.onlyQuoted (by decide)).append (hbehind.onlyQuoted (by decide)))
  rw [readMarkup_tag (fun c hc => by cases hc; decide) hquoted]
  simp only [tagToken, closingName_append hname hbehind]

end Tokens

end Markup

end NifBindings
