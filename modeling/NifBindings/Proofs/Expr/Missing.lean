import Mathlib.Data.List.Chain
import NifBindings.Proofs.Expr.Balance
import NifBindings.Proofs.Expr.Rejection

/-!
# Missing operands

A generated text is taken for parentheses, operators and other words. No operand is missing in it if
something stands between each operator or parenthesis and the next. An operator between two texts
and parentheses around a text keep it so, and what stands for a name is missing only if the name has
no character besides colons, or is an operator with colons in it. So an operand goes missing exactly
if the text is read through such a name.
-/

namespace NifBindings

/-- A piece of a generated text. -/
inductive Piece where
  | opening
  | closing
  | operator
  /-- Any other word. -/
  | operand
deriving DecidableEq, Repr

namespace Piece

/-- Whether a text is the native spelling of an operator. -/
def IsOperatorWord (word : List Char) : Prop :=
  ∃ op : Operator, word = op.native.toList

instance (word : List Char) : Decidable (IsOperatorWord word) :=
  decidable_of_iff (∃ op ∈ Operator.all, word = op.native.toList)
    ⟨fun ⟨op, _, h⟩ => ⟨op, h⟩, fun ⟨op, h⟩ => ⟨op, op.mem_all, h⟩⟩

/-- The piece that a word is, if it has a character. Only a whole word is an operator: one that a
colon kept out of a name, as in `a=:=`, is a part of the word `a==` and does not count. -/
def ofWord (word : List Char) : List Piece :=
  if word = [] then [] else if IsOperatorWord word then [.operator] else [.operand]

/-- The pieces of a text behind the beginning of a word. Spaces and parentheses end a word, and a
word right before a parenthesis is a sign or a name that belongs to the group. -/
def ofText (word : List Char) : List Char → List Piece
  | [] => ofWord word
  | c :: rest =>
    if c = ' ' then ofWord word ++ ofText [] rest
    else if c = '(' then .opening :: ofText [] rest
    else if c = ')' then ofWord word ++ .closing :: ofText [] rest
    else ofText (word ++ [c]) rest

/-- Whether two pieces may stand side by side: between an operator or an opening parenthesis and an
operator or a closing parenthesis an operand is missing. -/
def Joins (a b : Piece) : Prop :=
  ¬((a = .opening ∨ a = .operator) ∧ (b = .closing ∨ b = .operator))

instance (a b : Piece) : Decidable (Joins a b) :=
  inferInstanceAs (Decidable (¬_))

/-- Whether no operand is missing among the pieces between two parentheses. -/
def Complete (pieces : List Piece) : Prop :=
  (opening :: (pieces ++ [closing])).IsChain Joins

instance (pieces : List Piece) : Decidable (Complete pieces) :=
  inferInstanceAs (Decidable (List.IsChain _ _))

/-- In front of an operator an operand is missing where it is in front of a closing parenthesis. -/
theorem isChain_concat_operator {pieces : List Piece} :
    (pieces ++ [operator]).IsChain Joins ↔ (pieces ++ [closing]).IsChain Joins := by
  simp [List.isChain_append, Joins]

/-- Behind an operator an operand is missing where it is behind an opening parenthesis. -/
theorem isChain_cons_operator {pieces : List Piece} :
    (operator :: pieces).IsChain Joins ↔ (opening :: pieces).IsChain Joins := by
  simp [List.isChain_cons, Joins]

/-- With an operator between them no operand is missing in two texts exactly if none is missing in
either. -/
theorem complete_operator_iff {lhs rhs : List Piece} :
    Complete (lhs ++ operator :: rhs) ↔ Complete lhs ∧ Complete rhs := by
  rw [Complete, List.append_assoc, List.cons_append, List.isChain_cons_split, ← List.cons_append,
    isChain_concat_operator, isChain_cons_operator]
  rfl

/-- No operand is missing in a group exactly if none is missing inside it. -/
theorem complete_group_iff {inside : List Piece} :
    Complete (opening :: (inside ++ [closing])) ↔ Complete inside := by
  have htail : (closing :: [closing]).IsChain Joins := by decide
  rw [Complete, List.cons_append, List.append_assoc, List.isChain_cons_cons, List.cons_append,
    List.nil_append, List.isChain_cons_split, and_iff_left htail]
  exact and_iff_right (by decide)

/-- What is no operator makes a text by itself. -/
theorem complete_ofWord_iff {word : List Char} :
    Complete (ofWord word) ↔ word ≠ [] ∧ ¬IsOperatorWord word := by
  unfold ofWord
  split
  next h => exact iff_of_false (by decide) fun hne => hne.1 h
  next h =>
    split
    next hop => exact iff_of_false (by decide) fun hne => hne.2 hop
    next hop => exact iff_of_true (by decide) ⟨h, hop⟩

/-- A space or a closing parenthesis ends a word. -/
theorem ofText_append_cons {c : Char} (hc : c = ' ' ∨ c = ')') (word front back : List Char) :
    ofText word (front ++ c :: back) = ofText word front ++ ofText [] (c :: back) := by
  have hend (word : List Char) :
      ofText word (c :: back) = ofWord word ++ ofText [] (c :: back) := by
    rcases hc with rfl | rfl <;> simp [ofText, ofWord]
  generalize c :: back = rest at hend ⊢
  induction front generalizing word with
  | nil => exact hend word
  | cons d front ih =>
    simp only [List.cons_append, ofText]
    split_ifs <;> simp [ih]

/-- Characters other than spaces and parentheses carry a word on. -/
theorem ofText_append {front : List Char} (hfront : ∀ c ∈ front, c ≠ ' ' ∧ c ≠ '(' ∧ c ≠ ')')
    (word rest : List Char) : ofText word (front ++ rest) = ofText (word ++ front) rest := by
  induction front generalizing word with
  | nil => simp
  | cons c front ih =>
    obtain ⟨⟨hspace, hopen, hclose⟩, hfront⟩ := List.forall_mem_cons.mp hfront
    rw [List.cons_append, ofText, if_neg hspace, if_neg hopen, if_neg hclose, ih hfront]
    simp

/-- A text without spaces and parentheses is one word. -/
theorem ofText_word {word : List Char} (hword : ∀ c ∈ word, c ≠ ' ' ∧ c ≠ '(' ∧ c ≠ ')') :
    ofText [] word = ofWord word := by
  simpa [ofText] using ofText_append hword [] []

/-- A group is its inside between its parentheses, with what stands right before it. -/
theorem ofText_grouped {front : List Char} (hfront : ∀ c ∈ front, c ≠ ' ' ∧ c ≠ '(' ∧ c ≠ ')')
    (inside : List Char) :
    ofText [] (front ++ grouped inside) = opening :: (ofText [] inside ++ [closing]) := by
  rw [ofText_append hfront, grouped, ofText, if_neg (by decide), if_pos rfl,
    ofText_append_cons (.inr rfl)]
  rfl

/-- Two texts with an operator between them are their pieces and the operator. -/
theorem ofText_binary (lhs rhs : List Char) (op : Operator) :
    ofText [] (lhs ++ ' ' :: (op.native.toList ++ ' ' :: rhs)) =
      ofText [] lhs ++ operator :: ofText [] rhs := by
  have hop : ofText [] (' ' :: op.native.toList) = [operator] := by
    cases op <;> rfl
  rw [ofText_append_cons (.inl rfl), ← List.cons_append, ofText_append_cons (.inl rfl), hop]
  rfl

/-- The pieces of a text without parentheses are operands, unless an operator stands in it. -/
theorem eq_operand_of_mem_ofText {word text : List Char} (htext : ∀ c ∈ text, c ≠ '(' ∧ c ≠ ')')
    (hops : ∀ op : Operator, ¬op.native.toList <:+: word ++ text) :
    ∀ piece ∈ ofText word text, piece = operand := by
  have hword {word : List Char} (hops : ∀ op : Operator, ¬op.native.toList <:+: word) :
      ∀ piece ∈ ofWord word, piece = operand := by
    have hop : ¬IsOperatorWord word := by
      rintro ⟨op, rfl⟩
      exact hops op List.infix_rfl
    rw [ofWord, if_neg hop]
    split <;> simp
  induction text generalizing word with
  | nil => exact hword (by simpa using hops)
  | cons c rest ih =>
    obtain ⟨⟨hopen, hclose⟩, hrest⟩ := List.forall_mem_cons.mp htext
    rw [ofText, if_neg hopen, if_neg hclose]
    split
    next =>
      have hfront : word <:+: word ++ c :: rest := (List.prefix_append _ _).isInfix
      have hback : rest <:+: word ++ c :: rest :=
        ((List.suffix_cons c rest).trans (List.suffix_append _ _)).isInfix
      rw [List.forall_mem_append]
      exact ⟨hword fun op h => hops op (h.trans hfront),
        ih hrest fun op h => hops op (h.trans hback)⟩
    next => exact ih hrest (by simpa using hops)

/-- A text with a character besides spaces has a piece. -/
theorem ofText_ne_nil {word text : List Char} {c : Char} (hc : c ∈ word ++ text)
    (hspace : c ≠ ' ') : ofText word text ≠ [] := by
  have hword {word : List Char} (hc : c ∈ word) : ofWord word ≠ [] := by
    rw [ofWord, if_neg (List.ne_nil_of_mem hc)]
    split <;> simp
  induction text generalizing word with
  | nil => exact hword (by simpa using hc)
  | cons d rest ih =>
    rw [ofText]
    split_ifs with hd
    · rcases List.mem_append.mp hc with hc | hc
      · exact List.append_ne_nil_of_left_ne_nil (hword hc) _
      · have hrest : c ∈ rest := List.mem_of_ne_of_mem (hd ▸ hspace) hc
        exact List.append_ne_nil_of_right_ne_nil _ (ih (by simpa using hrest))
    · exact List.cons_ne_nil _ _
    · simp
    · exact ih (by simpa using hc)

/-- Operands are complete if there is one. -/
theorem complete_of_operands {pieces : List Piece} (hne : pieces ≠ [])
    (h : ∀ piece ∈ pieces, piece = operand) : Complete pieces := by
  have hchain : (pieces ++ [closing]).IsChain Joins := by
    clear hne
    induction pieces with
    | nil => exact List.isChain_singleton closing
    | cons piece pieces ih =>
      obtain ⟨rfl, hpieces⟩ := List.forall_mem_cons.mp h
      exact List.isChain_cons.mpr ⟨fun _ _ => by simp [Joins], ih hpieces⟩
  obtain ⟨piece, pieces, rfl⟩ := List.exists_cons_of_ne_nil hne
  rw [h piece List.mem_cons_self] at hchain ⊢
  exact List.isChain_cons_cons.mpr ⟨by decide, hchain⟩

end Piece

/-- Whether no operand is missing in a text: something stands between each operator or parenthesis
and the next, and between these and the ends of the text. Operators are those that are words by
themselves, as they are printed between operands; one that is glued to a word, because a colon
between its characters was left out, is not counted. -/
def HasOperands (text : List Char) : Prop :=
  Piece.Complete (Piece.ofText [] text)

instance (text : List Char) : Decidable (HasOperands text) :=
  inferInstanceAs (Decidable (Piece.Complete _))

/-- With an operator between them no operand is missing in two texts exactly if none is missing in
either. -/
theorem hasOperands_binary_iff {lhs rhs : List Char} {op : Operator} :
    HasOperands (lhs ++ ' ' :: (op.native.toList ++ ' ' :: rhs)) ↔
      HasOperands lhs ∧ HasOperands rhs := by
  rw [HasOperands, Piece.ofText_binary, Piece.complete_operator_iff]
  rfl

/-- No operand is missing in a group behind signs or a name exactly if none is missing inside it. -/
theorem hasOperands_grouped_iff {front inside : List Char}
    (hfront : ∀ c ∈ front, c ≠ ' ' ∧ c ≠ '(' ∧ c ≠ ')') :
    HasOperands (front ++ grouped inside) ↔ HasOperands inside := by
  rw [HasOperands, Piece.ofText_grouped hfront, Piece.complete_group_iff]
  rfl

/-- No operand is missing in a word if it has a character and is no operator. -/
theorem hasOperands_word_iff {word : List Char} (hword : ∀ c ∈ word, c ≠ ' ' ∧ c ≠ '(' ∧ c ≠ ')') :
    HasOperands word ↔ word ≠ [] ∧ ¬Piece.IsOperatorWord word := by
  rw [HasOperands, Piece.ofText_word hword, Piece.complete_ofWord_iff]

namespace Text

/-- The characters of the operators, and the colon. -/
def marks : List Char :=
  ":+-*/&|<>=!".toList

/-- A mark is the lower case of no other character. -/
theorem eq_of_mem_lowerChar {c mark : Char} (hmark : mark ∈ marks) (h : mark ∈ lowerChar c) :
    c = mark := by
  have himage : marks.all fun mark => mark ∉ ['i', '\u0307'] ∧ 0 < mark.toNat ∧
      ∀ run ∈ lowerRuns,
        run.last + run.shift < mark.toNat ∨ mark.toNat < run.first + run.shift := by
    decide +kernel
  obtain ⟨hdotted, hpos, hruns⟩ := of_decide_eq_true (List.all_eq_true.mp himage mark hmark)
  unfold lowerChar at h
  split at h
  · exact absurd h hdotted
  have hshift : shiftedBy lowerRuns c = mark := (List.mem_singleton.mp h).symm
  unfold shiftedBy at hshift
  split at hshift
  next run hrun =>
    have hcovers := List.find?_some hrun
    have hrange := hruns run (List.mem_of_find?_eq_some hrun)
    simp only [CaseRun.covers, Bool.and_eq_true, decide_eq_true_eq] at hcovers
    have hcode := toNat_ofNat (c.toNat + run.shift).toNat
    rw [hshift] at hcode
    omega
  next => exact hshift

/-- Marks are their own lower case. -/
theorem lowerAfter_eq_self {text : List Char} (h : ∀ c ∈ text, c ∈ marks) (before : List Char) :
    lowerAfter before text = text := by
  have hself : marks.all fun mark => mark ≠ 'Σ' ∧ lowerChar mark = [mark] := by
    decide +kernel
  induction text generalizing before with
  | nil => rfl
  | cons c rest ih =>
    obtain ⟨hc, hrest⟩ := List.forall_mem_cons.mp h
    obtain ⟨hsigma, hlower⟩ := of_decide_eq_true (List.all_eq_true.mp hself c hc)
    rw [lowerAfter, if_neg hsigma, hlower, ih hrest]
    rfl

/-- A text whose lower case has only marks has only marks. -/
theorem mem_marks_of_lowerAfter {before text : List Char}
    (h : ∀ c ∈ lowerAfter before text, c ∈ marks) : ∀ c ∈ text, c ∈ marks := by
  induction text generalizing before with
  | nil => exact nofun
  | cons c rest ih =>
    rw [lowerAfter] at h
    split at h
    next =>
      refine absurd (h _ List.mem_cons_self) ?_
      split <;> decide
    next =>
      rw [List.forall_mem_append] at h
      have hne : lowerChar c ≠ [] := by
        unfold lowerChar
        split <;> simp
      obtain ⟨mark, hmark⟩ := List.exists_mem_of_ne_nil _ hne
      have hc := h.1 mark hmark
      rw [List.forall_mem_cons, eq_of_mem_lowerChar hc hmark]
      exact ⟨hc, ih h.2⟩

end Text

/-- The characters of a field name that has only marks are these without the colons. -/
theorem fieldChars_of_marks {name : List Char} (h : ∀ c ∈ name, c ∈ Text.marks) :
    fieldChars name = name.filter (· != ':') := by
  rw [fieldChars, Text.lowerChars, Text.lowerAfter_eq_self h, List.map_congr_left, List.map_id]
  intro c hc
  refine if_neg ?_
  rintro rfl
  exact absurd (h ' ' hc) (by decide)

/-- The identifier of a field has nothing but certain marks exactly if these are left of its name
without the colons. -/
theorem fieldChars_eq_iff {name word : List Char} (hword : ∀ c ∈ word, c ∈ Text.marks) :
    fieldChars name = word ↔ name.filter (· != ':') = word := by
  constructor
  · rintro rfl
    refine (fieldChars_of_marks (@Text.mem_marks_of_lowerAfter [] name fun c hc => ?_)).symm
    by_cases hcolon : c = ':'
    · rw [hcolon]
      decide
    have hspace : c ≠ ' ' := by
      rintro rfl
      have hunder : '_' ∈ fieldChars name :=
        List.mem_filter.mpr ⟨List.mem_map.mpr ⟨' ', hc, rfl⟩, rfl⟩
      exact absurd (hword '_' hunder) (by decide)
    refine hword c (List.mem_filter.mpr ⟨List.mem_map.mpr ⟨c, hc, if_neg hspace⟩, ?_⟩)
    simpa using hcolon
  · rintro rfl
    refine fieldChars_of_marks fun c hc => ?_
    by_cases hcolon : c = ':'
    · rw [hcolon]
      decide
    · exact hword c (List.mem_filter.mpr ⟨hc, by simpa using hcolon⟩)

/-- Whether nothing is left of a name without its colons, or an operator. -/
def Vanishes (name : List Char) : Prop :=
  name.filter (· != ':') = [] ∨ Piece.IsOperatorWord (name.filter (· != ':'))

instance (name : List Char) : Decidable (Vanishes name) :=
  inferInstanceAs (Decidable (_ ∨ _))

/-- An operator is made of marks. -/
theorem mem_marks_of_native {op : Operator} : op.native.toList ⊆ Text.marks := by
  cases op <;> decide

/-- A name with a character that is no mark does not vanish. -/
theorem not_vanishes_of_mem {name : List Char} {c : Char} (hc : c ∈ name) (hmark : c ∉ Text.marks) :
    ¬Vanishes name := by
  have hcolon : c ≠ ':' := by
    rintro rfl
    exact hmark (by decide)
  have hmem : c ∈ name.filter (· != ':') := List.mem_filter.mpr ⟨hc, by simpa using hcolon⟩
  rintro (hnil | ⟨op, hop⟩)
  · exact List.ne_nil_of_mem hmem hnil
  · exact hmark (mem_marks_of_native (hop ▸ hmem))

/-- The identifier of a field vanishes with its name. -/
theorem vanishes_iff {name : List Char} :
    Vanishes name ↔ fieldChars name = [] ∨ Piece.IsOperatorWord (fieldChars name) := by
  have hnil : ∀ c ∈ ([] : List Char), c ∈ Text.marks := List.forall_mem_nil _
  refine or_congr (fieldChars_eq_iff hnil).symm (exists_congr fun op => ?_)
  exact (fieldChars_eq_iff fun _ hc => mem_marks_of_native hc).symm

/-- No operand is missing in the arguments of a version value. -/
theorem hasOperands_arguments {text : List Char} (hleaf : isCompound text = false)
    (hpoint : '.' ∈ text) : HasOperands (", ".toList.intercalate (text.splitOn '.')) := by
  obtain ⟨hopen, hclose, hspelling⟩ := isCompound_eq_false_iff.mp hleaf
  have hinside {word : List Char} (hne : word ≠ []) (hnot : ',' ∉ word ∧ ' ' ∉ word)
      (h : word <:+: ", ".toList.intercalate (text.splitOn '.')) : word <:+: text := by
    obtain ⟨part, hpart, hword⟩ := (infix_intercalate_iff hne (by decide) (by simpa)).mp h
    exact hword.trans (isInfix_of_mem_splitOn hpart)
  have hparenthesis {c : Char} (hc : ',' ∉ [c] ∧ ' ' ∉ [c])
      (h : c ∈ ", ".toList.intercalate (text.splitOn '.')) : c ∈ text := by
    rw [← List.singleton_infix_iff] at h ⊢
    exact hinside (List.cons_ne_nil c []) hc h
  have hcomma : ',' ∈ [] ++ ", ".toList.intercalate (text.splitOn '.') := by
    have hlength := length_splitOn '.' text
    have hcount := List.count_pos_iff.mpr hpoint
    match hsplit : text.splitOn '.' with
    | [] | [_] => grind
    | first :: second :: rest => simp [List.intercalate_cons_cons]
  refine Piece.complete_of_operands (Piece.ofText_ne_nil hcomma (by decide))
    (Piece.eq_operand_of_mem_ofText (fun c hc => ⟨?_, ?_⟩) fun op hop => ?_)
  · rintro rfl
    exact hopen (hparenthesis (by decide) hc)
  · rintro rfl
    exact hclose (hparenthesis (by decide) hc)
  · refine hspelling (.native op) (hinside ?_ ?_ hop)
    · cases op <;> decide
    · cases op <;> decide

/-- No operand is missing in what stands for a name or a numeral unless the name vanishes. -/
theorem hasOperands_leaf_iff {text : List Char} (hleaf : isCompound text = false) :
    HasOperands (Expr.leaf (String.ofList text)).render.toList ↔ ¬Vanishes text := by
  obtain ⟨hopen, hclose, -⟩ := isCompound_eq_false_iff.mp hleaf
  rcases Expr.render_leaf_cases text with ⟨hnumeric, h⟩ | ⟨rfl, h⟩ | ⟨hpoint, h⟩ | ⟨hpoint, h⟩
  · have hfilter : text.filter (· != ':') = text := by
      refine List.filter_eq_self.mpr fun c hc => ?_
      rw [bne_iff_ne]
      rintro rfl
      exact absurd (hnumeric ':' hc) (by decide)
    have hword : ∀ c ∈ text, c ≠ ' ' ∧ c ≠ '(' ∧ c ≠ ')' := by
      refine fun c hc => ⟨?_, ?_, ?_⟩
      all_goals
        rintro rfl
        exact absurd (hnumeric _ hc) (by decide)
    rw [h, hasOperands_word_iff hword, Vanishes, hfilter, not_or]
  · rw [h]
    decide
  · rw [h, hasOperands_grouped_iff (by simp)]
    exact iff_of_true (hasOperands_arguments hleaf hpoint) (not_vanishes_of_mem hpoint (by decide))
  · have hword : ∀ c ∈ (escapeReserved (String.ofList (fieldChars text))).toList,
        c ≠ ' ' ∧ c ≠ '(' ∧ c ≠ ')' := by
      intro c hc
      rcases mem_escapeReserved hc with rfl | rfl | hc
      · decide
      · decide
      rw [String.toList_ofList] at hc
      refine ⟨?_, ?_, ?_⟩
      · rintro rfl
        exact space_not_mem_fieldChars text hc
      · rintro rfl
        exact hopen (mem_of_mem_fieldChars hc rfl)
      · rintro rfl
        exact hclose (mem_of_mem_fieldChars hc rfl)
    rw [h, hasOperands_word_iff hword, vanishes_iff, not_or]
    unfold escapeReserved
    split
    next hreserved =>
      -- A reserved word is written raw, and neither form of it is empty or an operator.
      have hwords : ∀ name ∈ reservedWords,
          (name.toList ≠ [] ∧ ¬Piece.IsOperatorWord name.toList) ∧
            ("r#" ++ name).toList ≠ [] ∧ ¬Piece.IsOperatorWord ("r#" ++ name).toList := by
        decide +kernel
      obtain ⟨hname, hraw⟩ := hwords _ hreserved
      rw [String.toList_ofList] at hname
      exact iff_of_true hraw hname
    next => rw [String.toList_ofList]

namespace Expr

/-- An operand is missing in an operand of an operator where it is missing in its expression. -/
theorem hasOperands_asOperand_iff {expr : Expr} :
    HasOperands expr.asOperand.render.toList ↔ HasOperands expr.render.toList := by
  unfold asOperand
  split
  · rw [toList_render_group]
    exact @hasOperands_grouped_iff [] _ nofun
  · rfl

/-- An operand is missing behind unary operators where it is missing without them. -/
theorem hasOperands_withUnary_iff {expr : Expr} {ops : List UnaryOperator} :
    HasOperands (withUnary ops expr).render.toList ↔ HasOperands expr.render.toList := by
  cases ops with
  | nil => rfl
  | cons op ops =>
    rw [withUnary_cons, toList_render_unary]
    refine hasOperands_grouped_iff fun c hc => ?_
    obtain ⟨sign, -, rfl⟩ := List.mem_map.mp hc
    cases sign <;> decide

/-- No operand is missing in the text of an expression exactly if none of the texts that it is read
through vanishes: an operator, signs and parentheses lose no operand, and a name does only if it
vanishes. -/
theorem Reads.hasOperands_iff {text : List Char} {expr : Expr} (h : Reads text expr) :
    HasOperands expr.render.toList ↔ ∀ part ∈ readTexts text, ¬Vanishes part := by
  induction h with
  | @leaf text hleaf =>
    rw [hasOperands_leaf_iff hleaf, readTexts_eq,
      operandTexts_of_eq_none (matchShape?_eq_none hleaf)]
    simp
  | @left text found lhs hfound hop _ ih =>
    have hself := not_vanishes_of_mem (space_mem_of_matchShape? hfound) (by decide)
    rw [hasOperands_asOperand_iff, ih, readTexts_eq text, operandTexts_of_matchShape? hfound,
      if_pos hop]
    simp [hself]
  | @node text found lhs rhs hfound hop _ _ ihlhs ihrhs =>
    have hself := not_vanishes_of_mem (space_mem_of_matchShape? hfound) (by decide)
    rw [hasOperands_withUnary_iff, toList_render_binary, hasOperands_binary_iff,
      hasOperands_asOperand_iff, hasOperands_asOperand_iff, ihlhs, ihrhs, readTexts_eq text,
      operandTexts_of_matchShape? hfound, if_neg hop]
    simp [hself, or_imp, forall_and]

/-- No operand is missing in the generated text of an expression exactly if nothing that the text is
read through vanishes. -/
theorem hasOperands_generate_iff {text generated : String} (h : generate text = .ok generated) :
    HasOperands generated.toList ↔ ∀ part ∈ readTexts text.toList, ¬Vanishes part := by
  obtain ⟨expr, hparse, rfl⟩ := generate_eq_ok_iff.mp h
  exact (parseChars_eq_ok_iff.mp hparse).hasOperands_iff

/-- An operand with a colon, signs, nested groups and a version value. -/
theorem hasOperands_generate_iff_nested :
    generate "(Type:Flags #BITAND# 1) #AND# (!((Version #GTE# 10.1.0.0) #OR# (A #EQ# 12)))" =
        .ok "(typeflags & 1) && (!((version >= FileVersion(10, 1, 0, 0)) || (a == 12)))" ∧
      ∀ part ∈ readTexts
        "(Type:Flags #BITAND# 1) #AND# (!((Version #GTE# 10.1.0.0) #OR# (A #EQ# 12)))".toList,
          ¬Vanishes part := by
  have hgenerate :
      generate "(Type:Flags #BITAND# 1) #AND# (!((Version #GTE# 10.1.0.0) #OR# (A #EQ# 12)))" =
        .ok "(typeflags & 1) && (!((version >= FileVersion(10, 1, 0, 0)) || (a == 12)))" := by
    decide +kernel
  exact ⟨hgenerate, (hasOperands_generate_iff hgenerate).mp (by decide +kernel)⟩

/-- An operator between empty parentheses is accepted, and both of its operands are missing. -/
theorem not_hasOperands_generate :
    ¬∀ text generated : String, text ≠ "" → generate text = .ok generated →
      HasOperands generated.toList := by
  intro h
  have hgenerate : generate "() + ()" = .ok " + " := by decide +kernel
  exact absurd (h _ _ (by decide) hgenerate) (by decide +kernel)

end Expr

end NifBindings
