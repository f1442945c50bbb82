import NifBindings.Proofs.Markup.Tags

/-!
# Markup without tokens

Comments, instructions and document type declarations leave no token. Each of them reaches exactly
as far as it was written: up to the word that ends it, or, in a document type declaration, up to the
bracket behind its internal subset.
-/

namespace NifBindings

namespace Markup

section Words

variable {word content : List Char}

/-- A word is found where it stands first. -/
theorem skipPast_append (hne : word ≠ []) (h : ¬word <:+: content ++ word.dropLast)
    (rest : List Char) : skipPast word (content ++ word ++ rest) = some rest := by
  induction content with
  | nil =>
    obtain ⟨first, tail, rfl⟩ := List.exists_cons_of_ne_nil hne
    simp [skipPast]
  | cons c content ih =>
    have hlater : ¬word <:+: content ++ word.dropLast := fun hinfix =>
      h (List.infix_cons hinfix)
    have hnow : word.isPrefixOf (c :: (content ++ word ++ rest)) = false := by
      rw [← Bool.not_eq_true, List.isPrefixOf_iff_prefix]
      intro hprefix
      have hlong : c :: content ++ word.dropLast <+: c :: (content ++ word ++ rest) := by
        refine ⟨word.getLast hne :: rest, ?_⟩
        conv_rhs => rw [← List.dropLast_append_getLast hne]
        simp
      refine h (List.prefix_of_prefix_length_le hprefix hlong ?_).isInfix
      simp only [List.length_append, List.length_cons, List.length_dropLast]
      omega
    rw [List.cons_append, List.cons_append, skipPast, hnow]
    exact ih hlater

end Words

section Asides

/-- A comment or an instruction is read up to its end and leaves no token. -/
theorem IsAside.exists_body {aside : List Char} (h : IsAside aside) :
    ∃ body, aside = '<' :: body ∧ ∀ rest, readMarkup (body ++ rest) = .ok (none, rest) := by
  cases h with
  | @comment content hend =>
    refine ⟨['!', '-', '-'] ++ content ++ ['-', '-', '>'], by simp, fun rest => ?_⟩
    have hskip := skipPast_append (by decide) hend rest
    simp only [List.append_assoc, List.cons_append, List.nil_append] at hskip ⊢
    simp [readMarkup, readDeclaration, afterWord, hskip, Except.map]
  | @instruction target content htarget hend =>
    obtain ⟨first, tail, rfl, hchars⟩ := htarget.exists_cons
    have hfirst := ne_of_isNameChar (d := '>') (hchars first List.mem_cons_self) (by decide)
    refine ⟨['?'] ++ (first :: tail ++ content) ++ ['?', '>'], by simp, fun rest => ?_⟩
    have hskip := skipPast_append (by decide) hend rest
    simp only [List.append_assoc, List.cons_append, List.nil_append] at hskip ⊢
    simp [readMarkup, readInstruction, hskip, hfirst.symm, Except.map]

end Asides

section Doctype

variable {part next : DoctypePart} {c : Char} {text rest behind : List Char}

/-- A character inside a document type declaration is passed over, unless it ends the declaration or
something begins there that a word ends. -/
theorem skipDoctype_cons (hend : ¬(c = '>' ∧ (part = .outside ∨ part = .behind)))
    (hnext : part.next c rest = next) (hwords : next ∉ [DoctypePart.comment, .instruction]) :
    skipDoctype part (c :: rest) = skipDoctype next rest := by
  rw [skipDoctype, if_neg hend]
  split
  next h => exact absurd (by simp [← hnext, h]) hwords
  next h => exact absurd (by simp [← hnext, h]) hwords
  next => rw [hnext]

/-- A comment in the internal subset is passed over. -/
theorem skipDoctype_comment (hnext : DoctypePart.next .subset c rest = .comment)
    (hskip : skipPast ['-', '-', '>'] (rest.drop 3) = some behind) :
    skipDoctype .subset (c :: rest) = skipDoctype .subset behind := by
  rw [skipDoctype, if_neg (by simp), hnext]
  dsimp only
  split
  next h => rw [Option.some.inj (hskip.symm.trans h)]
  next h => cases hskip.symm.trans h

/-- An instruction in the internal subset is passed over. -/
theorem skipDoctype_instruction (hnext : DoctypePart.next .subset c rest = .instruction)
    (hskip : skipPast ['?', '>'] (rest.drop 1) = some behind) :
    skipDoctype .subset (c :: rest) = skipDoctype .subset behind := by
  rw [skipDoctype, if_neg (by simp), hnext]
  dsimp only
  split
  next h => rw [Option.some.inj (hskip.symm.trans h)]
  next h => cases hskip.symm.trans h

/-- A text is passed over if its characters are, and the quoted texts in it hide some of them. -/
theorem skipDoctype_of_onlyQuoted {hidden : List Char} (quoted : Char → DoctypePart)
    (hplain : ∀ c rest, isQuote c = false → c ∉ hidden →
      skipDoctype part (c :: rest) = skipDoctype part rest)
    (hopen : ∀ quote rest, isQuote quote = true →
      skipDoctype part (quote :: rest) = skipDoctype (quoted quote) rest)
    (hinside : ∀ quote c rest, c ≠ quote →
      skipDoctype (quoted quote) (c :: rest) = skipDoctype (quoted quote) rest)
    (hclose : ∀ quote rest, skipDoctype (quoted quote) (quote :: rest) = skipDoctype part rest)
    (h : OnlyQuoted hidden text) (rest : List Char) :
    skipDoctype part (text ++ rest) = skipDoctype part rest := by
  have hbody {quote : Char} {body : List Char} (hquote : quote ∉ body) (behind : List Char) :
      skipDoctype (quoted quote) (body ++ behind) = skipDoctype (quoted quote) behind := by
    induction body with
    | nil => rfl
    | cons c body ih =>
      rw [List.mem_cons, not_or] at hquote
      rw [List.cons_append, hinside quote c _ fun h => hquote.1 h.symm, ih hquote.2]
  induction h with
  | nil => rfl
  | outside hquote hc _ ih => rw [List.cons_append, hplain _ _ hquote hc, ih]
  | inside hquote hnot _ ih =>
    rw [List.append_assoc, List.cons_append, hopen _ _ hquote, hbody hnot, List.cons_append,
      hclose, ih]

/-- What stands in front of the internal subset is passed over. -/
theorem skipDoctype_outside (h : OnlyQuoted ['>', '['] text) (rest : List Char) :
    skipDoctype .outside (text ++ rest) = skipDoctype .outside rest := by
  refine skipDoctype_of_onlyQuoted .quoted (fun c rest hquote hc => ?_)
    (fun quote rest hquote => ?_) (fun quote c rest hc => ?_) (fun quote rest => ?_) h rest
  · simp only [List.mem_cons, List.not_mem_nil, or_false, not_or] at hc
    exact skipDoctype_cons (by simp [hc.1]) (by simp [DoctypePart.next, hquote, hc.2]) (by simp)
  · have hne : quote ≠ '>' := fun h => by simp [h, isQuote] at hquote
    exact skipDoctype_cons (by simp [hne]) (by simp [DoctypePart.next, hquote]) (by simp)
  · exact skipDoctype_cons (by simp) (by simp [DoctypePart.next, hc]) (by simp)
  · exact skipDoctype_cons (by simp) (by simp [DoctypePart.next]) (by simp)

/-- The inside of a declaration that may hold quoted texts is passed over. -/
theorem skipDoctype_literals (h : OnlyQuoted ['>'] text) (rest : List Char) :
    skipDoctype (.literals none) (text ++ rest) = skipDoctype (.literals none) rest := by
  refine skipDoctype_of_onlyQuoted (fun quote => .literals (some quote))
    (fun c rest hquote hc => ?_) (fun quote rest hquote => ?_) (fun quote c rest hc => ?_)
    (fun quote rest => ?_) h rest
  · rw [List.mem_singleton] at hc
    exact skipDoctype_cons (by simp) (by simp [DoctypePart.next, hquote, hc]) (by simp)
  · have hne : quote ≠ '>' := fun h => by simp [h, isQuote] at hquote
    exact skipDoctype_cons (by simp) (by simp [DoctypePart.next, hquote, hne]) (by simp)
  · exact skipDoctype_cons (by simp) (by simp [DoctypePart.next, hc]) (by simp)
  · exact skipDoctype_cons (by simp) (by simp [DoctypePart.next]) (by simp)

/-- The inside of any other declaration is passed over up to its bracket. -/
theorem skipDoctype_declaration (h : '>' ∉ text) (rest : List Char) :
    skipDoctype .declaration (text ++ '>' :: rest) = skipDoctype .subset rest := by
  induction text with
  | nil => exact skipDoctype_cons (by simp) rfl (by simp)
  | cons c text ih =>
    rw [List.mem_cons, not_or] at h
    have hc : c ≠ '>' := fun hsame => h.1 hsame.symm
    rw [← ih h.2]
    exact skipDoctype_cons (by simp) (by simp [DoctypePart.next, hc]) (by simp)

/-- A declaration of an element has nothing in quotes. -/
theorem ofMarkup_element (c : Char) (rest : List Char) :
    DoctypePart.ofMarkup ("!ELEMENT".toList ++ c :: rest) = .declaration := by
  have hsize := c.utf8Size_pos
  have htake : ("!ELEMENT".toList ++ c :: rest).take 9 = "!ELEMENT".toList ++ [c] := rfl
  have hbytes : "!ELEMENT".toList.foldl (fun size c => size + c.utf8Size) 0 = 8 := by decide
  have hlong : isCutOff ("!ELEMENT".toList ++ c :: rest) = false := by
    rw [isCutOff, htake, List.foldl_append, hbytes, decide_eq_false_iff_not, List.foldl_cons,
      List.foldl_nil]
    omega
  have hkeywords : literalKeywords.any (·.isPrefixOf ("!ELEMENT".toList ++ c :: rest)) = false := by
    rfl
  unfold DoctypePart.ofMarkup
  rw [hlong, hkeywords]
  simp

/-- The internal subset is passed over. -/
theorem skipDoctype_subset (h : IsSubset text) (rest : List Char) :
    skipDoctype .subset (text ++ rest) = skipDoctype .subset rest := by
  induction h with
  | nil => rfl
  | other hc _ ih =>
    rw [← ih]
    exact skipDoctype_cons (by simp) (by simp [DoctypePart.next, hc.1, hc.2]) (by simp)
  | @aside aside text haside _ ih =>
    rw [← ih]
    cases haside with
    | @comment content hend =>
      have hskip := skipPast_append (by decide) hend (text ++ rest)
      simp only [List.append_assoc] at hskip ⊢
      exact skipDoctype_comment rfl hskip
    | @instruction target content htarget hend =>
      have hskip := skipPast_append (by decide) hend (text ++ rest)
      simp only [List.append_assoc] at hskip ⊢
      exact skipDoctype_instruction rfl hskip
  | @element content text hcontent _ ih =>
    have hinside : '>' ∉ "!ELEMENT".toList ++ content := by
      rw [List.mem_append, not_or]
      exact ⟨by decide, hcontent⟩
    have hnext : DoctypePart.next .subset '<'
        ("!ELEMENT".toList ++ content ++ '>' :: (text ++ rest)) = .declaration := by
      rw [List.append_assoc]
      cases content with
      | nil => exact ofMarkup_element '>' (text ++ rest)
      | cons c content => exact ofMarkup_element c (content ++ '>' :: (text ++ rest))
    calc skipDoctype .subset ("<!ELEMENT".toList ++ content ++ '>' :: text ++ rest)
        = skipDoctype .subset ('<' :: ("!ELEMENT".toList ++ content ++ '>' :: (text ++ rest))) := by
          simp
      _ = skipDoctype .declaration ("!ELEMENT".toList ++ content ++ '>' :: (text ++ rest)) :=
          skipDoctype_cons (by simp) hnext (by simp)
      _ = skipDoctype .subset (text ++ rest) := skipDoctype_declaration hinside _
      _ = skipDoctype .subset rest := ih
  | @literals keyword content text hkeyword hcontent _ ih =>
    have hinside : OnlyQuoted ['>'] (keyword ++ content) := by
      refine .append ?_ hcontent
      simp only [literalKeywords, List.mem_cons, List.not_mem_nil, or_false] at hkeyword
      rcases hkeyword with rfl | rfl | rfl <;> exact onlyQuoted_of_forall (by simp [isQuote])
    have hnext : DoctypePart.next .subset '<'
        (keyword ++ content ++ '>' :: (text ++ rest)) = .literals none := by
      simp only [literalKeywords, List.mem_cons, List.not_mem_nil, or_false] at hkeyword
      rcases hkeyword with rfl | rfl | rfl <;> rfl
    calc skipDoctype .subset ('<' :: keyword ++ content ++ '>' :: text ++ rest)
        = skipDoctype .subset ('<' :: (keyword ++ content ++ '>' :: (text ++ rest))) := by simp
      _ = skipDoctype (.literals none) (keyword ++ content ++ '>' :: (text ++ rest)) :=
          skipDoctype_cons (by simp) hnext (by simp)
      _ = skipDoctype (.literals none) ('>' :: (text ++ rest)) := skipDoctype_literals hinside _
      _ = skipDoctype .subset (text ++ rest) := skipDoctype_cons (by simp) rfl (by simp)
      _ = skipDoctype .subset rest := ih

/-- Behind the internal subset only blanks stand in front of the end of the declaration. -/
theorem skipDoctype_behind (h : IsBlank text) (rest : List Char) :
    skipDoctype .behind (text ++ '>' :: rest) = some rest := by
  induction text with
  | nil => simp [skipDoctype]
  | cons c text ih =>
    rw [IsBlank, List.all_cons, Bool.and_eq_true] at h
    have hc := ne_of_isMarkupBlank (d := '>') h.1 (by decide)
    rw [← ih h.2]
    exact skipDoctype_cons (by simp [hc]) rfl (by simp)

/-- A document type declaration with a name is read if its end is found. -/
theorem readMarkup_doctype {front name : List Char} (hfront : IsBlank front) (hname : IsName name)
    (hskip : skipDoctype .outside (front ++ (name ++ rest)) = some behind) :
    readMarkup ("!DOCTYPE".toList ++ (front ++ (name ++ rest))) = .ok (none, behind) := by
  obtain ⟨first, tail, rfl, hchars⟩ := hname.exists_cons
  have hfirst := hchars first List.mem_cons_self
  have hnamed : ['>'].isPrefixOf
      ((front ++ (first :: tail ++ rest)).dropWhile isMarkupBlank) = false := by
    rw [dropWhile_append_of_head hfront.isMarkupBlank_of_mem
      (by simpa using isMarkupBlank_of_isNameChar hfirst)]
    have hne := ne_of_isNameChar (d := '>') hfirst (by decide)
    simp [List.isPrefixOf, hne.symm]
  have hread : readDoctype (front ++ (first :: tail ++ rest)) = .ok behind := by
    rw [readDoctype, hnamed, hskip]
    rfl
  simpa [readMarkup, readDeclaration, lowerLetter, map_eq_ok_iff] using hread

/-- A document type declaration is read up to its end and leaves no token. -/
theorem IsDoctype.exists_body (h : IsDoctype text) :
    ∃ body, text = '<' :: body ∧ ∀ rest, readMarkup (body ++ rest) = .ok (none, rest) := by
  have hlead {front name external : List Char} (hfront : IsBlank front) (hname : IsName name)
      (hexternal : OnlyQuoted ['>', '['] external) (rest : List Char) :
      skipDoctype .outside (front ++ (name ++ (external ++ rest))) = skipDoctype .outside rest := by
    rw [skipDoctype_outside (hfront.onlyQuoted (by decide)),
      skipDoctype_outside (hname.onlyQuoted (by decide)), skipDoctype_outside hexternal]
  cases h with
  | @plain front name external hfront hname hexternal =>
    refine ⟨"!DOCTYPE".toList ++ (front ++ (name ++ (external ++ ['>']))), by simp, fun rest => ?_⟩
    simp only [List.append_assoc]
    refine readMarkup_doctype hfront hname ((hlead hfront hname hexternal _).trans ?_)
    simp [skipDoctype]
  | @subset front name external subset last hfront hname hexternal hsubset hlast =>
    refine ⟨"!DOCTYPE".toList ++ (front ++ (name ++ (external ++ '[' :: (subset ++ ']' :: (last ++
      ['>']))))), by simp, fun rest => ?_⟩
    simp only [List.append_assoc, List.cons_append]
    refine readMarkup_doctype hfront hname ((hlead hfront hname hexternal _).trans ?_)
    calc skipDoctype .outside ('[' :: (subset ++ ']' :: (last ++ '>' :: rest)))
        = skipDoctype .subset (subset ++ ']' :: (last ++ '>' :: rest)) :=
          skipDoctype_cons (by simp) rfl (by simp)
      _ = skipDoctype .subset (']' :: (last ++ '>' :: rest)) := skipDoctype_subset hsubset _
      _ = skipDoctype .behind (last ++ '>' :: rest) := skipDoctype_cons (by simp) rfl (by simp)
      _ = some rest := skipDoctype_behind hlast rest

end Doctype

end Markup

end NifBindings
