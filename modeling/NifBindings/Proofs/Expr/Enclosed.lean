import Mathlib.Data.List.TakeWhile
import NifBindings.Proofs.Expr.Form
import NifBindings.Proofs.Expr.Operand
import NifBindings.Proofs.Expr.Precedence

/-!
# Enclosed operands

A text with fitting parentheses is read inside parentheses as it is read alone: the parenthesis that
encloses it cuts no token of it and is not taken by any of its own. Hence two such texts in
parentheses with an operator between them are read exactly as that operator on their two readings,
whatever operators stand inside.
-/

namespace NifBindings

/-- A run ends before a character that does not belong to it. -/
theorem takeWhile_append_cons {p : Char → Bool} {c : Char} (hc : p c = false)
    (front back : List Char) : (front ++ c :: back).takeWhile p = front.takeWhile p := by
  rw [List.takeWhile_append]
  split
  next hlength =>
    rw [List.takeWhile_cons_of_neg (by simp [hc]), List.append_nil]
    exact ((List.takeWhile_prefix p).eq_of_length hlength).symm
  next => rfl

/-- What is left behind a run reaches a character that does not belong to it. -/
theorem dropWhile_append_cons {p : Char → Bool} {c : Char} (hc : p c = false)
    (front back : List Char) :
    (front ++ c :: back).dropWhile p = front.dropWhile p ++ c :: back := by
  rw [List.dropWhile_append]
  split
  next hempty =>
    rw [List.dropWhile_cons_of_neg (by simp [hc]), List.isEmpty_iff.mp hempty, List.nil_append]
  next => rfl

/-- The operator in front of a text stays the same before a closing parenthesis. -/
theorem leadingSymbol?_append_close (text rest : List Char) :
    leadingSymbol? (text ++ ')' :: rest) =
      (leadingSymbol? text).map fun found => (found.1, found.2 ++ ')' :: rest) := by
  have hclose (op : Operator) : ')' ∉ op.native.toList := by cases op <;> decide
  have hbegins : (fun op : Operator => op.native.toList.isPrefixOf (text ++ ')' :: rest)) =
      fun op => op.native.toList.isPrefixOf text := by
    funext op
    exact isPrefixOf_append_cons (hclose op)
  rw [leadingSymbol?, leadingSymbol?, hbegins, Option.map_map]
  refine Option.map_congr fun op hop => ?_
  have hword : op.native.toList.isPrefixOf text = true := by
    simpa using List.find?_some hop
  have hlength := (List.isPrefixOf_iff_prefix.mp hword).length_le
  rw [Function.comp_apply, List.drop_append_of_le_length hlength]

/-- A text that opens a group and only goes on with arguments leaves it open. -/
theorem not_balancedFrom_of_arguments {depth : Nat} {inside : List Char}
    (h : ∀ c ∈ inside, isArgumentChar c = true) : balancedFrom (depth + 1) inside = false := by
  have hinside : balancedFrom 0 inside = true :=
    balanced_of_not_mem (fun hopen => absurd (h _ hopen) (by decide))
      (fun hclose => absurd (h _ hclose) (by decide))
  have hrest : balancedFrom (0 + (depth + 1)) (inside ++ []) = balancedFrom (depth + 1) [] :=
    balancedFrom_append hinside []
  rw [List.append_nil, Nat.zero_add] at hrest
  exact hrest

/-- The operand in front of a text stays the same before a closing parenthesis, if the text closes
all groups that are open. -/
theorem leadingOperand?_append_close {depth : Nat} {text : List Char}
    (h : balancedFrom depth text = true) (rest : List Char) :
    leadingOperand? (text ++ ')' :: rest) =
      (leadingOperand? text).map fun found => (found.1, found.2 ++ ')' :: rest) := by
  unfold leadingOperand?
  dsimp only
  rw [takeWhile_append_cons (by decide), dropWhile_append_cons (by decide)]
  split
  · rfl
  · cases hdrop : text.dropWhile isNameChar with
    | nil => rfl
    | cons c inside =>
      by_cases hc : c = '('
      · subst hc
        have hclose : isArgumentChar ')' = false := by decide
        simp only [List.cons_append, dropWhile_append_cons hclose, takeWhile_append_cons hclose]
        cases hbehind : inside.dropWhile isArgumentChar with
        | nil =>
          -- A group that the text left open would take the parenthesis behind it.
          rw [← List.takeWhile_append_dropWhile (p := isNameChar) (l := text), hdrop] at h
          obtain ⟨hopen, -⟩ := balancedFrom_of_append h
          rw [balancedFrom, if_neg (by simp), depthAfter_open,
            not_balancedFrom_of_arguments (List.dropWhile_eq_nil_iff.mp hbehind)] at hopen
          cases hopen
        | cons d behind =>
          by_cases hd : d = ')'
          · subst hd
            rfl
          · simp [hd]
      · simp [hc]

/-- Where no space and no parenthesis stands, an operator or an operand is expected. -/
theorem tokenize_of_ne {c : Char} (hspace : c ≠ ' ') (hopen : c ≠ '(') (hclose : c ≠ ')')
    (behind : Bool) (rest : List Char) :
    tokenize behind (c :: rest) =
      if behind then
        (leadingSymbol? (c :: rest)).bind fun found =>
          (tokenize false found.2).map (.operator found.1 :: ·)
      else
        match UnaryOperator.ofChar? c with
        | some op => (tokenize false rest).map (.sign op :: ·)
        | none =>
          (leadingOperand? (c :: rest)).bind fun found =>
            (tokenize true found.2).map (.operand found.1 :: ·) := by
  rw [tokenize, if_neg hspace, if_neg hopen, if_neg hclose]
  split
  · split
    next hfound => rw [hfound, Option.bind_some]
    next hfound => rw [hfound, Option.bind_none]
  · cases UnaryOperator.ofChar? c with
    | some op => rfl
    | none =>
      dsimp only
      split
      next hfound => rw [hfound, Option.bind_some]
      next hfound => rw [hfound, Option.bind_none]

/-- The operator that a text begins with and the rest behind it make up the text. -/
theorem append_of_leadingSymbol? {text rest : List Char} {op : Operator}
    (h : leadingSymbol? text = some (op, rest)) : text = op.native.toList ++ rest := by
  obtain ⟨found, hfound, heq⟩ := Option.map_eq_some_iff.mp h
  obtain ⟨rfl, rfl⟩ := Prod.mk.inj heq
  have hword : found.native.toList.isPrefixOf text = true := by
    simpa using List.find?_some hfound
  exact List.prefix_iff_eq_append.mp (List.isPrefixOf_iff_prefix.mp hword) |>.symm

/-- A token in front of what is read before an enclosing parenthesis. -/
theorem map_bind_append (token : Token) (front behind : Option (List Token)) :
    ((front.map (token :: ·)).bind fun tokens => behind.map (tokens ++ .closing :: ·)) =
      (front.bind fun tokens => behind.map (tokens ++ .closing :: ·)).map (token :: ·) := by
  cases front <;> simp [Function.comp_def]

/-- What is read of a text that closes all groups that are open stays the same before another
closing parenthesis. -/
theorem tokenize_append_close {depth : Nat} {behind : Bool} {text : List Char}
    (h : balancedFrom depth text = true) (rest : List Char) :
    tokenize behind (text ++ ')' :: rest) =
      (tokenize behind text).bind fun front =>
        (tokenize true rest).map (front ++ .closing :: ·) := by
  have hbehind {depth : Nat} (front : List Char) {back : List Char}
      (h : balancedFrom depth (front ++ back) = true) :
      balancedFrom (depthFrom depth front) back = true :=
    (balancedFrom_of_append h).1
  fun_induction tokenize behind text generalizing depth with
  | case1 => simp
  | case2 behind text ih =>
    rw [List.cons_append, tokenize_space]
    exact ih (hbehind [' '] h)
  | case3 behind text _ ih =>
    rw [List.cons_append, tokenize_open, ih (hbehind ['('] h), map_bind_append]
  | case4 behind text _ _ ih =>
    rw [List.cons_append, tokenize_close, ih (hbehind [')'] h), map_bind_append]
  | case5 c text hspace hopen hclose op back hop ih =>
    rw [append_of_leadingSymbol? hop] at h
    rw [List.cons_append, tokenize_of_ne hspace hopen hclose, if_pos rfl, ← List.cons_append,
      leadingSymbol?_append_close, hop, Option.map_some, Option.bind_some, ih (hbehind _ h),
      map_bind_append]
  | case6 c text hspace hopen hclose hop =>
    rw [List.cons_append, tokenize_of_ne hspace hopen hclose, if_pos rfl, ← List.cons_append,
      leadingSymbol?_append_close, hop]
    rfl
  | case7 behind c text hspace hopen hclose hfront op hop ih =>
    rw [List.cons_append, tokenize_of_ne hspace hopen hclose, if_neg hfront, hop]
    dsimp only
    rw [ih (hbehind [c] h), map_bind_append]
  | case8 behind c text hspace hopen hclose hfront hop operand back hoperand ih =>
    have hleading := leadingOperand?_append_close h rest
    rw [(isOperand_of_leadingOperand? hoperand).2] at h
    rw [List.cons_append, tokenize_of_ne hspace hopen hclose, if_neg hfront, hop]
    dsimp only
    rw [← List.cons_append, hleading, hoperand, Option.map_some, Option.bind_some,
      ih (hbehind _ h), map_bind_append]
  | case9 behind c text hspace hopen hclose hfront hop hoperand =>
    rw [List.cons_append, tokenize_of_ne hspace hopen hclose, if_neg hfront, hop]
    dsimp only
    rw [← List.cons_append, leadingOperand?_append_close h, hoperand]
    rfl

/-- The parentheses of an operand fit. -/
theorem IsOperand.balanced {operand : List Char} (h : IsOperand operand) :
    balanced operand = true := by
  have hname {name : List Char} (hall : ∀ c ∈ name, isNameChar c = true) :
      NifBindings.balanced name = true :=
    balanced_of_not_mem (fun hopen => absurd (hall _ hopen) (by decide))
      (fun hclose => absurd (hall _ hclose) (by decide))
  cases h with
  | name _ hall => exact hname hall
  | @call name arguments _ hall harguments =>
    rw [balanced_append (hname hall)]
    refine balanced_grouped (balanced_of_not_mem ?_ ?_)
    · exact fun hopen => absurd (harguments _ hopen) (by decide)
    · exact fun hclose => absurd (harguments _ hclose) (by decide)

/-- Whether tokens in parentheses close exactly the groups that they open, so that the parenthesis
behind them closes the one before them. -/
def Enclosable (tokens : List Token) : Prop :=
  ∀ rest, outside 1 (tokens ++ .closing :: rest) = outside 0 rest

/-- The tokens of a text that closes all groups that are open do so too. -/
theorem outside_append_close {depth : Nat} {behind : Bool} {text : List Char} {tokens : List Token}
    (h : balancedFrom depth text = true) (htokens : tokenize behind text = some tokens)
    (rest : List Token) :
    outside (depth + 1) (tokens ++ .closing :: rest) = outside 0 rest := by
  have hbehind {depth : Nat} {front back : List Char} (hfront : balanced front = true)
      (h : balancedFrom depth (front ++ back) = true) : balancedFrom depth back = true := by
    have hrest := (balancedFrom_of_append h).1
    rwa [depthFrom_of_balanced hfront] at hrest
  fun_induction tokenize behind text generalizing depth tokens with
  | case1 =>
    cases htokens
    have hdepth : depth = 0 := by simpa [balancedFrom] using h
    rw [hdepth]
    rfl
  | case2 behind text ih =>
    have hspace : balanced [' '] = true := rfl
    exact ih (hbehind hspace h) htokens
  | case3 behind text _ ih =>
    obtain ⟨others, hothers, rfl⟩ := Option.map_eq_some_iff.mp htokens
    rw [balancedFrom, if_neg (by simp), depthAfter_open] at h
    have hrest := ih h hothers
    exact hrest
  | case4 behind text _ _ ih =>
    obtain ⟨others, hothers, rfl⟩ := Option.map_eq_some_iff.mp htokens
    cases depth with
    | zero => cases h
    | succ depth =>
      rw [balancedFrom, if_neg (by simp), depthAfter_close] at h
      have hrest := ih h hothers
      exact hrest
  | case5 c text hspace hopen hclose op back hop ih =>
    obtain ⟨others, hothers, rfl⟩ := Option.map_eq_some_iff.mp htokens
    rw [append_of_leadingSymbol? hop] at h
    have hnative : balanced op.native.toList = true := by cases op <;> rfl
    have hrest := ih (hbehind hnative h) hothers
    rw [List.cons_append, outside, if_neg (Nat.succ_ne_zero depth)]
    exact hrest
  | case6 => cases htokens
  | case7 behind c text hspace hopen hclose hfront op hop ih =>
    obtain ⟨others, hothers, rfl⟩ := Option.map_eq_some_iff.mp htokens
    rw [balancedFrom, if_neg (fun hc => hclose hc.1), depthAfter_of_ne hopen hclose] at h
    have hrest := ih h hothers
    exact hrest
  | case8 behind c text hspace hopen hclose hfront hop operand back hoperand ih =>
    obtain ⟨others, hothers, rfl⟩ := Option.map_eq_some_iff.mp htokens
    obtain ⟨hoperand, htext⟩ := isOperand_of_leadingOperand? hoperand
    rw [htext] at h
    have hrest := ih (hbehind hoperand.balanced h) hothers
    exact hrest
  | case9 => cases htokens

namespace Enclosable

/-- The tokens of a balanced text can be enclosed. -/
theorem of_tokenize {text : List Char} {tokens : List Token} (h : balanced text = true)
    (htokens : tokenize false text = some tokens) : Enclosable tokens :=
  outside_append_close h htokens

/-- The tokens of a phrase can be enclosed. -/
theorem of_phrase (phrase : Phrase) : Enclosable phrase.tokens := by
  intro rest
  rw [Phrase.outside_append]
  rfl

/-- What goes on with an operator behind its parenthesis cannot be enclosed. -/
theorem not_append {tokens more : List Token} {op : Operator} (h : Enclosable tokens) :
    ¬Enclosable (tokens ++ .closing :: .operator op :: more) := by
  intro hwhole
  have hempty := hwhole []
  rw [List.append_assoc, List.cons_append, List.cons_append, h] at hempty
  cases hempty

/-- Enclosed tokens in front of an operator end where their parenthesis stands. -/
theorem eq_of_append {a b x y : List Token} {op op' : Operator} (ha : Enclosable a)
    (hb : Enclosable b)
    (h : a ++ .closing :: .operator op :: x = b ++ .closing :: .operator op' :: y) :
    a = b ∧ op = op' ∧ x = y := by
  rcases append_cons_cases h with ⟨hab, -, hrest⟩ | ⟨more, hmore, hrest⟩ | ⟨more, hmore, hrest⟩
  · obtain ⟨hop, hxy⟩ := List.cons.inj hrest
    exact ⟨hab, Token.operator.inj hop, hxy⟩
  · cases more with
    | nil => cases hrest
    | cons token more =>
      obtain ⟨rfl, -⟩ := List.cons.inj hrest
      exact absurd (hmore ▸ hb) ha.not_append
  · cases more with
    | nil => cases hrest
    | cons token more =>
      obtain ⟨rfl, -⟩ := List.cons.inj hrest
      exact absurd (hmore ▸ ha) hb.not_append

end Enclosable

namespace Phrase

/-- A phrase that begins with signs and a parenthesis and has no operator outside is one group
behind these signs. -/
theorem eq_group_of_tokens (signs : List UnaryOperator) {phrase : Phrase} {rest more : List Token}
    (hspine : phrase.spine = [])
    (h : phrase.tokens ++ rest = signs.map .sign ++ .opening :: more) :
    ∃ inner, phrase = .group signs inner := by
  cases phrase with
  | operand signs' text =>
    rw [tokens, List.append_assoc] at h
    obtain ⟨-, hopen, -⟩ := signs_eq_of_append h (by simp) (by simp)
    cases hopen
  | group signs' inner =>
    rw [tokens, List.append_assoc] at h
    obtain ⟨rfl, -, -⟩ := signs_eq_of_append h (by simp) (by simp)
    exact ⟨inner, rfl⟩
  | binary lhs op rhs => simp [spine] at hspine

/-- Two groups with an operator between them are the tokens of one phrase only. -/
theorem eq_of_tokens_groups {phrase : Phrase} {a b : List Token} {op : Operator}
    (ha : Enclosable a) (hb : Enclosable b)
    (h : phrase.tokens =
      .opening :: (a ++ .closing :: .operator op :: .opening :: (b ++ [.closing]))) :
    ∃ lhs rhs, phrase = .binary (.group [] lhs) op (.group [] rhs) ∧
      lhs.tokens = a ∧ rhs.tokens = b := by
  have hspine : phrase.spine = [op] := by
    have houter : outside 1 (b ++ [.closing]) = [] := hb []
    rw [← outside_tokens, h, outside, ha, outside, if_pos rfl, outside, houter]
  cases phrase with
  | operand | group => cases hspine
  | binary lhs op' rhs =>
    rw [spine] at hspine
    obtain ⟨hlhs, rfl, hrhs⟩ : lhs.spine = [] ∧ op' = op ∧ rhs.spine = [] := by
      rcases List.append_eq_singleton_iff.mp hspine with ⟨hlhs, hrest⟩ | ⟨-, hrest⟩
      · obtain ⟨hop, hrhs⟩ := List.cons.inj hrest
        exact ⟨hlhs, hop, hrhs⟩
      · cases hrest
    obtain ⟨lhs, rfl⟩ := eq_group_of_tokens [] hlhs h
    have hinner : lhs.tokens ++ .closing :: .operator op' :: rhs.tokens =
        a ++ .closing :: .operator op' :: .opening :: (b ++ [.closing]) := by
      simpa [tokens] using h
    obtain ⟨rfl, -, hright⟩ := (Enclosable.of_phrase lhs).eq_of_append ha hinner
    obtain ⟨rhs, rfl⟩ := eq_group_of_tokens [] hrhs (by rw [List.append_nil]; exact hright)
    refine ⟨lhs, rhs, rfl, rfl, ?_⟩
    have hgroup : rhs.tokens ++ [.closing] = b ++ [.closing] := by simpa [tokens] using hright
    exact List.append_cancel_right hgroup

end Phrase

/-- The text of two groups with an operator between them. -/
def groupsText (a : List Char) (op : Operator) (b : List Char) : List Char :=
  grouped a ++ ' ' :: (op.native.toList ++ ' ' :: grouped b)

/-- The tokens of two groups are those of their insides, each read alone. -/
theorem tokenize_groupsText {a b : List Char} (ha : balanced a = true) (hb : balanced b = true)
    (op : Operator) :
    tokenize false (groupsText a op b) =
      (tokenize false a).bind fun front => (tokenize false b).map fun back =>
        .opening :: (front ++ .closing :: .operator op :: .opening :: (back ++ [.closing])) := by
  have htext : groupsText a op b =
      '(' :: (a ++ ')' :: (' ' :: (op.native.toList ++ ' ' :: '(' :: (b ++ [')'])))) := by
    simp [groupsText, grouped]
  rw [htext, tokenize_open, tokenize_append_close ha, tokenize_space, tokenize_operator,
    tokenize_open, tokenize_append_close hb]
  cases tokenize false a <;> cases tokenize false b <;> simp

/-- Two balanced texts in parentheses with an operator between them are read exactly as this
operator on their readings. -/
theorem isReading_groupsText_iff {a b : List Char} {op : Operator} {grouping : Grouping}
    (ha : balanced a = true) (hb : balanced b = true) :
    IsReading (groupsText a op b) grouping ↔
      ∃ lhs rhs, IsReading a lhs ∧ IsReading b rhs ∧ grouping = .binary lhs op rhs := by
  constructor
  · rintro ⟨phrase, htokens, htight, rfl⟩
    rw [tokenize_groupsText ha hb] at htokens
    obtain ⟨front, hfront, htokens⟩ := Option.bind_eq_some_iff.mp htokens
    obtain ⟨back, hback, htokens⟩ := Option.map_eq_some_iff.mp htokens
    obtain ⟨lhs, rhs, rfl, rfl, rfl⟩ := Phrase.eq_of_tokens_groups
      (.of_tokenize ha hfront) (.of_tokenize hb hback) htokens.symm
    exact ⟨lhs.grouping, rhs.grouping, ⟨lhs, hfront, htight.1, rfl⟩, ⟨rhs, hback, htight.2.1, rfl⟩,
      rfl⟩
  · rintro ⟨_, _, ⟨lhs, hfront, hlhs, rfl⟩, ⟨rhs, hback, hrhs, rfl⟩, rfl⟩
    refine ⟨.binary (.group [] lhs) op (.group [] rhs), ?_, ⟨hlhs, hrhs, trivial, trivial⟩, rfl⟩
    rw [tokenize_groupsText ha hb, hfront, hback]
    simp [Phrase.tokens]

end NifBindings
