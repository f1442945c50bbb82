import NifBindings.Proofs.Expr.Form
import NifBindings.Proofs.Expr.Operand
import NifBindings.Proofs.Split

/-!
# Parentheses and tokens of the generated text

In the generated text of an expression the parentheses fit, and no symbolic token is left. Both hold
of what stands for a name or a numeral, because no conversion makes a parenthesis or a capital
letter, and both are kept where operators, signs, spaces and parentheses are put between such parts.
-/

namespace NifBindings

/-- Whether the parentheses of a text fit: as many are closed as are opened, and no front of the
text closes more than it opens. -/
structure Fits (text : List Char) : Prop where
  count_eq : text.count '(' = text.count ')'
  count_le : ∀ front, front <+: text → front.count ')' ≤ front.count '('

/-- A fact about all fronts of a text is one about the empty front and one about each longer
front. -/
theorem forall_prefix_cons_iff {α : Type} {p : List α → Prop} {a : α} {list : List α} :
    (∀ front, front <+: a :: list → p front) ↔ p [] ∧ ∀ front, front <+: list → p (a :: front) := by
  simp only [List.prefix_cons_iff, or_imp, forall_and, forall_eq, forall_exists_index, and_imp]
  refine and_congr_right fun _ => ⟨fun h front hfront => h _ front rfl hfront, ?_⟩
  rintro h _ front rfl hfront
  exact h front hfront

/-- Where some groups are open, a text closes exactly these if it closes as many groups as are open
and opened together, and no front of it closes more. -/
theorem balancedFrom_iff_count {depth : Nat} {text : List Char} :
    balancedFrom depth text = true ↔ depth + text.count '(' = text.count ')' ∧
      ∀ front, front <+: text → front.count ')' ≤ depth + front.count '(' := by
  induction text generalizing depth with
  | nil => simp [balancedFrom]
  | cons c rest ih =>
    rw [balancedFrom, forall_prefix_cons_iff]
    by_cases hclose : c = ')'
    · subst hclose
      cases depth with
      | zero =>
        rw [if_pos ⟨rfl, rfl⟩]
        refine iff_of_false Bool.false_ne_true ?_
        rintro ⟨-, -, hfront⟩
        exact absurd (hfront [] List.nil_prefix) (by decide)
      | succ depth =>
        rw [if_neg (by simp), depthAfter_close, Nat.add_sub_cancel, ih]
        simp only [List.count_cons]
        grind
    · rw [if_neg (by simp [hclose])]
      by_cases hopen : c = '('
      · subst hopen
        rw [depthAfter_open, ih]
        simp only [List.count_cons]
        grind
      · rw [depthAfter_of_ne hopen hclose, ih]
        simp [hopen, hclose]

/-- The parentheses of a text fit exactly if every closing one has a partner before it and none
stays open. -/
theorem balanced_iff_fits {text : List Char} : balanced text = true ↔ Fits text := by
  rw [balanced, balancedFrom_iff_count]
  simp only [Nat.zero_add]
  exact ⟨fun h => ⟨h.1, h.2⟩, fun h => ⟨h.count_eq, h.count_le⟩⟩

/-- Whether no symbolic token stands in a text. -/
def Tokenless (text : List Char) : Prop :=
  ∀ op : Operator, ¬op.token.toList <:+: text

namespace Tokenless

/-- A token is made of number signs and capital letters. -/
theorem hash_or_upper_of_mem {op : Operator} {c : Char} (h : c ∈ op.token.toList) :
    c = '#' ∨ c.isUpper = true := by
  have hall : op.token.toList.all (fun c => c == '#' || c.isUpper) = true := by
    cases op <;> decide
  simpa using List.all_eq_true.mp hall c h

/-- No other character stands in a token. -/
theorem not_mem_token {op : Operator} {c : Char} (hhash : c ≠ '#') (hupper : c.isUpper = false) :
    c ∉ op.token.toList := by
  intro hmem
  rcases hash_or_upper_of_mem hmem with h | h
  · exact hhash h
  · rw [hupper] at h
    cases h

/-- A part of a text without tokens has none. -/
theorem of_isInfix {part text : List Char} (h : Tokenless text) (hpart : part <:+: text) :
    Tokenless part :=
  fun op htoken => h op (htoken.trans hpart)

/-- A text without number signs has no token. -/
theorem of_hash_not_mem {text : List Char} (h : '#' ∉ text) : Tokenless text := by
  intro op htoken
  have hhash : '#' ∈ op.token.toList := by cases op <;> decide
  exact h (htoken.subset hhash)

/-- A text without capital letters has no token. -/
theorem of_isUpper {text : List Char} (h : ∀ c ∈ text, c.isUpper = false) : Tokenless text := by
  intro op htoken
  have hcapital : op.token.toList.any Char.isUpper = true := by cases op <;> decide
  obtain ⟨c, hc, hupper⟩ := List.any_eq_true.mp hcapital
  rw [h c (htoken.subset hc)] at hupper
  cases hupper

/-- Texts without tokens stay so beside a character that no token has. -/
theorem append_cons {a b : List Char} {c : Char} (ha : Tokenless a) (hb : Tokenless b)
    (hhash : c ≠ '#' := by decide) (hupper : c.isUpper = false := by decide) :
    Tokenless (a ++ c :: b) := by
  intro op htoken
  rcases (infix_append_cons_iff (not_mem_token hhash hupper)).mp htoken with h | h
  · exact ha op h
  · exact hb op h

end Tokenless

namespace Text

/-- A character is its own lower case, or this is no character before the small letters of the basic
alphabet. -/
theorem shiftedBy_lowerRuns_cases (c : Char) :
    shiftedBy lowerRuns c = c ∨ (shiftedBy lowerRuns c).toNat = 0 ∨
      0x61 ≤ (shiftedBy lowerRuns c).toNat := by
  have himage : ∀ run ∈ lowerRuns, 0x61 ≤ run.first + run.shift := by
    decide +kernel
  unfold shiftedBy
  split
  next run hrun =>
    have hcovers := List.find?_some hrun
    have hrange := himage run (List.mem_of_find?_eq_some hrun)
    simp only [CaseRun.covers, Bool.and_eq_true, decide_eq_true_eq] at hcovers
    rcases toNat_ofNat (c.toNat + run.shift).toNat with h | h <;> omega
  next => exact .inl rfl

/-- Parentheses, spaces and underscores are their own lower case and that of no other character. -/
theorem count_lowerChar {c mark : Char} (hmark : mark ∈ ['(', ')', ' ', '_']) :
    (lowerChar c).count mark = [c].count mark := by
  have hmarks : 0 < mark.toNat ∧ mark.toNat < 0x61 ∧ shiftedBy lowerRuns mark = mark ∧
      ['i', '\u0307'].count mark = 0 ∧ '\u0130' ≠ mark := by
    simp only [List.mem_cons, List.not_mem_nil, or_false] at hmark
    rcases hmark with rfl | rfl | rfl | rfl <;> decide +kernel
  obtain ⟨hpos, hlt, hkeeps, hdotted, hne⟩ := hmarks
  unfold lowerChar
  split
  next h => rw [hdotted, h, List.count_singleton, if_neg (by simpa using hne)]
  next =>
    have hiff : shiftedBy lowerRuns c = mark ↔ c = mark := by
      constructor
      · intro h
        rcases shiftedBy_lowerRuns_cases c with hsame | hcode
        · exact hsame.symm.trans h
        · rw [h] at hcode
          omega
      · rintro rfl
        exact hkeeps
    simp only [List.count_singleton, beq_iff_eq, hiff]

/-- Lower case keeps parentheses, spaces and underscores, and makes no others. -/
theorem count_lowerAfter {mark : Char} (hmark : mark ∈ ['(', ')', ' ', '_'])
    (before text : List Char) : (lowerAfter before text).count mark = text.count mark := by
  have hsigma : 'Σ' ≠ mark ∧ 'σ' ≠ mark ∧ 'ς' ≠ mark := by
    simp only [List.mem_cons, List.not_mem_nil, or_false] at hmark
    rcases hmark with rfl | rfl | rfl | rfl <;> decide
  induction text generalizing before with
  | nil => rfl
  | cons c rest ih =>
    rw [lowerAfter]
    split
    next hc =>
      obtain ⟨hcapital, hsmall, hfinal⟩ := hsigma
      have hne : (if meetsCased before && !meetsCased rest then 'ς' else 'σ') ≠ mark := by
        split
        · exact hfinal
        · exact hsmall
      rw [List.count_cons_of_ne hne, List.count_cons_of_ne (hc ▸ hcapital), ih]
    next =>
      rw [List.count_append, count_lowerChar hmark, ih, ← List.count_append, List.singleton_append]

/-- Lower case makes no parenthesis. -/
theorem mem_of_mem_lowerAfter {before text : List Char} {c : Char}
    (h : c ∈ lowerAfter before text) (hc : isParenthesis c = true) : c ∈ text := by
  have hmark : c ∈ ['(', ')', ' ', '_'] := by
    simp only [isParenthesis, Bool.or_eq_true, beq_iff_eq] at hc
    rcases hc with rfl | rfl <;> decide
  rw [← List.count_pos_iff, count_lowerAfter hmark] at h
  exact List.count_pos_iff.mp h

end Text

/-- A parenthesis in the identifier of a field stands in its name. -/
theorem mem_of_mem_fieldChars {name : List Char} {c : Char} (h : c ∈ fieldChars name)
    (hc : isParenthesis c = true) : c ∈ name := by
  obtain ⟨d, hd, hdc⟩ := List.mem_map.mp (List.mem_filter.mp h).1
  split at hdc
  · exact absurd (hdc ▸ hc) (by decide)
  · exact Text.mem_of_mem_lowerAfter (hdc ▸ hd) hc

/-- Whether the parentheses of a text fit and no token stands in it. -/
structure IsClean (text : List Char) : Prop where
  balanced : balanced text = true
  tokenless : Tokenless text

namespace IsClean

/-- A text without parentheses and without tokens is clean. -/
theorem of_not_mem {text : List Char} (hopen : '(' ∉ text) (hclose : ')' ∉ text)
    (htokens : Tokenless text) : IsClean text :=
  ⟨balanced_of_not_mem hopen hclose, htokens⟩

/-- A clean text stays clean in parentheses, also behind signs. -/
theorem grouped (signs : List UnaryOperator) {text : List Char} (h : IsClean text) :
    IsClean (signs.map UnaryOperator.char ++ grouped text) := by
  have hhash : '#' ∉ signs.map UnaryOperator.char := by
    intro hmem
    obtain ⟨sign, -, hsign⟩ := List.mem_map.mp hmem
    cases sign <;> exact absurd hsign (by decide)
  refine ⟨?_, ?_⟩
  · rw [balanced_append (balanced_signs signs)]
    exact balanced_grouped h.balanced
  · exact (Tokenless.of_hash_not_mem hhash).append_cons
      (h.tokenless.append_cons (Tokenless.of_hash_not_mem (by simp)))

/-- Clean texts stay clean beside a character that is no parenthesis and stands in no token. -/
theorem append_cons {a b : List Char} {c : Char} (ha : IsClean a) (hb : IsClean b)
    (hplain : isParenthesis c = false := by decide) (hhash : c ≠ '#' := by decide)
    (hupper : c.isUpper = false := by decide) : IsClean (a ++ c :: b) := by
  obtain ⟨hopen, hclose⟩ := not_isParenthesis_iff.mp hplain
  refine ⟨?_, ha.tokenless.append_cons hb.tokenless hhash hupper⟩
  rw [balanced_append ha.balanced, NifBindings.balanced, balancedFrom,
    if_neg (fun h => hclose h.1), depthAfter_of_ne hopen hclose]
  exact hb.balanced

/-- The spelling of an operator is clean. -/
theorem native (op : Operator) : IsClean op.native.toList := by
  refine of_not_mem ?_ ?_ (Tokenless.of_hash_not_mem ?_) <;> cases op <;> decide

/-- Clean texts stay clean with an operator between them. -/
theorem binary {lhs rhs : List Char} (hlhs : IsClean lhs) (op : Operator) (hrhs : IsClean rhs) :
    IsClean (lhs ++ ' ' :: (op.native.toList ++ ' ' :: rhs)) :=
  hlhs.append_cons ((native op).append_cons hrhs)

/-- Clean texts stay clean with commas between them. -/
theorem intercalate {parts : List (List Char)} (h : ∀ part ∈ parts, IsClean part) :
    IsClean (", ".toList.intercalate parts) := by
  have hempty : IsClean [] := of_not_mem nofun nofun (Tokenless.of_hash_not_mem nofun)
  induction parts with
  | nil => exact hempty
  | cons first rest ih =>
    obtain ⟨hfirst, hrest⟩ := List.forall_mem_cons.mp h
    cases rest with
    | nil => simpa using hfirst
    | cons second rest =>
      have htext : ", ".toList.intercalate (first :: second :: rest) =
          first ++ ',' :: ([] ++ ' ' :: ", ".toList.intercalate (second :: rest)) := by
        rw [List.intercalate_cons_cons]
        simp
      rw [htext]
      exact hfirst.append_cons (hempty.append_cons (ih hrest))

end IsClean

namespace Expr

/-- What stands for a version is clean if its name has no parentheses and no tokens. -/
theorem isClean_version {text : List Char} (hopen : '(' ∉ text) (hclose : ')' ∉ text)
    (htokens : Tokenless text) :
    IsClean ("FileVersion".toList ++ grouped (", ".toList.intercalate (text.splitOn '.'))) := by
  have hparts : ∀ part ∈ text.splitOn '.', IsClean part := by
    intro part hpart
    have hinside := isInfix_of_mem_splitOn hpart
    exact IsClean.of_not_mem (fun h => hopen (hinside.subset h))
      (fun h => hclose (hinside.subset h)) (htokens.of_isInfix hinside)
  have hname : IsClean "FileVersion".toList :=
    IsClean.of_not_mem (by decide) (by decide) (Tokenless.of_hash_not_mem (by decide))
  refine ⟨?_, hname.tokenless.append_cons ?_⟩
  · rw [balanced_append hname.balanced]
    exact balanced_grouped (IsClean.intercalate hparts).balanced
  · exact (IsClean.intercalate hparts).tokenless.append_cons
      (Tokenless.of_hash_not_mem (List.not_mem_nil))

/-- What stands for a field is clean if its name has no parentheses. -/
theorem isClean_field {text : List Char} (hopen : '(' ∉ text) (hclose : ')' ∉ text) :
    IsClean (escapeReserved (String.ofList (fieldChars text))).toList := by
  have hmem {c : Char} (h : c ∈ (escapeReserved (String.ofList (fieldChars text))).toList) :
      c = 'r' ∨ c = '#' ∨ c ∈ fieldChars text := by
    simpa using mem_escapeReserved h
  refine IsClean.of_not_mem ?_ ?_ (Tokenless.of_isUpper ?_)
  · intro h
    rcases hmem h with h | h | h
    · exact absurd h (by decide)
    · exact absurd h (by decide)
    · exact hopen (mem_of_mem_fieldChars h rfl)
  · intro h
    rcases hmem h with h | h | h
    · exact absurd h (by decide)
    · exact absurd h (by decide)
    · exact hclose (mem_of_mem_fieldChars h rfl)
  · intro c h
    rcases hmem h with rfl | rfl | h
    · rfl
    · rfl
    · exact isUpper_of_mem_fieldChars h

/-- What stands for a name or a numeral is clean. -/
theorem isClean_leaf {text : List Char} (hleaf : isCompound text = false) :
    IsClean (leaf (String.ofList text)).render.toList := by
  obtain ⟨hopen, hclose, hspelling⟩ := isCompound_eq_false_iff.mp hleaf
  have htokens : Tokenless text := fun op => hspelling (.symbolic op)
  rcases render_leaf_cases text with ⟨-, h⟩ | ⟨-, h⟩ | ⟨-, h⟩ | ⟨-, h⟩
  · rw [h]
    exact IsClean.of_not_mem hopen hclose htokens
  · rw [h]
    exact IsClean.of_not_mem (by decide) (by decide) (Tokenless.of_hash_not_mem (by decide))
  · rw [h]
    exact isClean_version hopen hclose htokens
  · rw [h]
    exact isClean_field hopen hclose

/-- A clean expression is clean as an operand. -/
theorem isClean_asOperand {expr : Expr} (h : IsClean expr.render.toList) :
    IsClean expr.asOperand.render.toList := by
  unfold asOperand
  split
  · simpa [toList_render_group] using h.grouped []
  · exact h

/-- A clean expression is clean behind unary operators. -/
theorem isClean_withUnary {expr : Expr} (h : IsClean expr.render.toList)
    (ops : List UnaryOperator) : IsClean (withUnary ops expr).render.toList := by
  cases ops with
  | nil => exact h
  | cons op ops =>
    rw [withUnary_cons, toList_render_unary]
    exact h.grouped (op :: ops)

/-- Every expression that is read is clean: leaves are, and operands, operators and signs put clean
texts together. -/
theorem Reads.isClean {text : List Char} {expr : Expr} (h : Reads text expr) :
    IsClean expr.render.toList := by
  induction h with
  | leaf hleaf => exact isClean_leaf hleaf
  | left _ _ _ ih => exact isClean_asOperand ih
  | node _ _ _ _ ihlhs ihrhs =>
    refine isClean_withUnary ?_ _
    rw [toList_render_binary]
    exact (isClean_asOperand ihlhs).binary _ (isClean_asOperand ihrhs)

/-- The generated text of an expression is clean. -/
theorem isClean_of_generate {text generated : String} (h : generate text = .ok generated) :
    IsClean generated.toList := by
  obtain ⟨expr, hparse, rfl⟩ := generate_eq_ok_iff.mp h
  exact (parseChars_eq_ok_iff.mp hparse).isClean

end Expr

end NifBindings
