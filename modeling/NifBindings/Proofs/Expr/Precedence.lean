import NifBindings.Proofs.Basic
import NifBindings.Proofs.Expr.Token

/-!
# Precedence

A phrase is an expression of the generated sources with its parentheses. Operators bind by levels
and from the left, and comparisons are not chained, so that a phrase must put parentheses around
every operand that would otherwise lose a part. Phrases with the same tokens are cut differently
somewhere, so that at most one of them is tight, and no two have the same grouping.
-/

namespace NifBindings

/-- How tightly an operator binds. -/
def Operator.level : Operator → Nat
  | .or => 0
  | .and => 1
  | .lt | .gt | .le | .ge | .eq | .ne => 2
  | .bitOr => 3
  | .bitAnd => 4
  | .shiftRight | .shiftLeft => 5
  | .add | .sub => 6
  | .mul | .div => 7

/-- Whether an operator may follow one of its own level. Comparisons may not. -/
def Operator.chains (op : Operator) : Bool :=
  op.level != 2

/-- What the operators of an expression apply to, without its parentheses. -/
inductive Grouping where
  | operand (text : List Char)
  | unary (op : UnaryOperator) (inner : Grouping)
  | binary (lhs : Grouping) (op : Operator) (rhs : Grouping)
deriving DecidableEq, Repr

namespace Grouping

/-- Signs in front of a grouping. -/
def signed (signs : List UnaryOperator) (inner : Grouping) : Grouping :=
  signs.foldr unary inner

/-- The operands from left to right. -/
def operands : Grouping → List (List Char)
  | .operand text => [text]
  | .unary _ inner => inner.operands
  | .binary lhs _ rhs => lhs.operands ++ rhs.operands

/-- The number of binary operators. -/
def size : Grouping → Nat
  | .operand _ => 0
  | .unary _ inner => inner.size
  | .binary lhs _ rhs => lhs.size + 1 + rhs.size

@[simp] theorem operands_signed (signs : List UnaryOperator) (inner : Grouping) :
    (signed signs inner).operands = inner.operands := by
  induction signs with
  | nil => rfl
  | cons sign signs ih => exact ih

@[simp] theorem size_signed (signs : List UnaryOperator) (inner : Grouping) :
    (signed signs inner).size = inner.size := by
  induction signs with
  | nil => rfl
  | cons sign signs ih => exact ih

/-- The same signs in front of two groupings tell nothing about them. -/
theorem signed_inj {signs : List UnaryOperator} {a b : Grouping}
    (h : signed signs a = signed signs b) : a = b := by
  induction signs with
  | nil => exact h
  | cons sign signs ih => exact ih (Grouping.unary.inj h).2

end Grouping

/-- An expression with its parentheses. -/
inductive Phrase where
  /-- An operand behind signs. -/
  | operand (signs : List UnaryOperator) (text : List Char)
  /-- A phrase in parentheses behind signs. -/
  | group (signs : List UnaryOperator) (inner : Phrase)
  /-- Two phrases with an operator between them. -/
  | binary (lhs : Phrase) (op : Operator) (rhs : Phrase)
deriving DecidableEq, Repr

namespace Phrase

/-- The tokens of a phrase. -/
def tokens : Phrase → List Token
  | .operand signs text => signs.map .sign ++ [.operand text]
  | .group signs inner => signs.map .sign ++ .opening :: (inner.tokens ++ [.closing])
  | .binary lhs op rhs => lhs.tokens ++ .operator op :: rhs.tokens

/-- What the operators of a phrase apply to. -/
def grouping : Phrase → Grouping
  | .operand signs text => .signed signs (.operand text)
  | .group signs inner => .signed signs inner.grouping
  | .binary lhs op rhs => .binary lhs.grouping op rhs.grouping

/-- The operators outside parentheses from left to right. -/
def spine : Phrase → List Operator
  | .binary lhs op rhs => lhs.spine ++ op :: rhs.spine
  | _ => []

/-- Whether a phrase may stand in front of an operator. -/
def FitsBefore (op : Operator) : Phrase → Prop
  | .binary _ inner _ => op.level < inner.level ∨ op.level = inner.level ∧ op.chains = true
  | _ => True

/-- Whether a phrase may stand behind an operator. -/
def FitsBehind (op : Operator) : Phrase → Prop
  | .binary _ inner _ => op.level < inner.level
  | _ => True

/-- Whether every operand stands in parentheses that would otherwise lose a part of it. -/
def Tight : Phrase → Prop
  | .operand _ _ => True
  | .group _ inner => inner.Tight
  | .binary lhs op rhs => lhs.Tight ∧ rhs.Tight ∧ lhs.FitsBefore op ∧ rhs.FitsBehind op

instance (op : Operator) (phrase : Phrase) : Decidable (phrase.FitsBefore op) :=
  match phrase with
  | .operand _ _ | .group _ _ => .isTrue trivial
  | .binary _ inner _ =>
    inferInstanceAs
      (Decidable (op.level < inner.level ∨ op.level = inner.level ∧ op.chains = true))

instance (op : Operator) (phrase : Phrase) : Decidable (phrase.FitsBehind op) :=
  match phrase with
  | .operand _ _ | .group _ _ => .isTrue trivial
  | .binary _ inner _ => inferInstanceAs (Decidable (op.level < inner.level))

/-- Whether a phrase is tight is decided operator by operator. -/
def decidableTight : (phrase : Phrase) → Decidable phrase.Tight
  | .operand _ _ => .isTrue trivial
  | .group _ inner => decidableTight inner
  | .binary lhs op rhs =>
    have := decidableTight lhs
    have := decidableTight rhs
    inferInstanceAs
      (Decidable (lhs.Tight ∧ rhs.Tight ∧ lhs.FitsBefore op ∧ rhs.FitsBehind op))

instance (phrase : Phrase) : Decidable phrase.Tight :=
  decidableTight phrase

/-- No operator outside parentheses binds more loosely than the last one to be applied. -/
theorem level_le_of_mem_spine {lhs rhs : Phrase} {op other : Operator}
    (h : (binary lhs op rhs).Tight) (hmem : other ∈ (binary lhs op rhs).spine) :
    op.level ≤ other.level := by
  generalize hphrase : binary lhs op rhs = phrase at h hmem
  induction phrase generalizing lhs op rhs with
  | operand | group => cases hphrase
  | binary l o r ihl ihr =>
    cases hphrase
    obtain ⟨hl, hr, hbefore, hbehind⟩ := h
    rw [spine, List.mem_append, List.mem_cons] at hmem
    rcases hmem with hmem | rfl | hmem
    · cases l with
      | operand | group => cases hmem
      | binary l' o' r' =>
        have hle := ihl rfl hl hmem
        rcases hbefore with hlt | ⟨heq, _⟩ <;> omega
    · exact Nat.le_refl _
    · cases r with
      | operand | group => cases hmem
      | binary l' o' r' =>
        have hle := ihr rfl hr hmem
        have hlt : o.level < o'.level := hbehind
        omega

/-- The operators in front of an operator bind at least as tightly. -/
theorem level_le_of_fitsBefore {phrase : Phrase} {op other : Operator} (h : phrase.Tight)
    (hfits : phrase.FitsBefore op) (hmem : other ∈ phrase.spine) : op.level ≤ other.level := by
  cases phrase with
  | operand | group => cases hmem
  | binary lhs inner rhs =>
    have hle := level_le_of_mem_spine h hmem
    rcases hfits with hlt | ⟨heq, _⟩ <;> omega

/-- The operators behind an operator bind more tightly. -/
theorem level_lt_of_fitsBehind {phrase : Phrase} {op other : Operator} (h : phrase.Tight)
    (hfits : phrase.FitsBehind op) (hmem : other ∈ phrase.spine) : op.level < other.level := by
  cases phrase with
  | operand | group => cases hmem
  | binary lhs inner rhs =>
    have hle := level_le_of_mem_spine h hmem
    have hlt : op.level < inner.level := hfits
    omega

end Phrase

/-- The operators among some tokens that stand outside parentheses, `depth` of which are open. -/
def outside (depth : Nat) : List Token → List Operator
  | [] => []
  | .opening :: rest => outside (depth + 1) rest
  | .closing :: rest => outside (depth - 1) rest
  | .operator op :: rest => if depth = 0 then op :: outside depth rest else outside depth rest
  | _ :: rest => outside depth rest

@[simp] theorem outside_signs (depth : Nat) (signs : List UnaryOperator) (rest : List Token) :
    outside depth (signs.map .sign ++ rest) = outside depth rest := by
  induction signs with
  | nil => rfl
  | cons sign signs ih => exact ih

namespace Phrase

/-- A phrase among other tokens adds its own operators, unless it stands inside parentheses. -/
theorem outside_append (phrase : Phrase) (depth : Nat) (rest : List Token) :
    outside depth (phrase.tokens ++ rest) =
      (if depth = 0 then phrase.spine else []) ++ outside depth rest := by
  induction phrase generalizing depth rest with
  | operand signs text => simp [tokens, spine, outside]
  | group signs inner ih => simp [tokens, spine, outside, ih]
  | binary lhs op rhs ihl ihr =>
    by_cases hdepth : depth = 0
    · simp [tokens, spine, outside, ihl, ihr, hdepth]
    · simp [tokens, outside, ihl, ihr, hdepth]

/-- The operators outside parentheses are decided by the tokens. -/
theorem outside_tokens (phrase : Phrase) : outside 0 phrase.tokens = phrase.spine := by
  rw [← List.append_nil phrase.tokens, outside_append]
  simp [outside]

/-- Phrases with the same tokens have the same operators outside parentheses. -/
theorem spine_eq_of_tokens_eq {p q : Phrase} (h : p.tokens = q.tokens) : p.spine = q.spine := by
  rw [← outside_tokens, h, outside_tokens]

/-- The number of operators among the tokens is that of the grouping. -/
theorem count_tokens (phrase : Phrase) :
    phrase.tokens.countP (fun token => token matches .operator _) = phrase.grouping.size := by
  have hsigns (signs : List UnaryOperator) :
      (signs.map Token.sign).countP (fun token => token matches .operator _) = 0 := by
    induction signs with
    | nil => rfl
    | cons sign signs ih => simp
  induction phrase with
  | operand signs text => simp [tokens, grouping, Grouping.size, hsigns]
  | group signs inner ih => simp [tokens, grouping, hsigns, ih]
  | binary lhs op rhs ihl ihr =>
    simp only [tokens, grouping, Grouping.size, List.countP_append, List.countP_cons, ihl, ihr]
    simp
    omega

/-- Signs in front of an operand or a parenthesis are where they end. -/
theorem signs_eq_of_append {a b : List UnaryOperator} {x y : Token} {s t : List Token}
    (h : a.map .sign ++ x :: s = b.map .sign ++ y :: t) (hx : ∀ op, x ≠ .sign op)
    (hy : ∀ op, y ≠ .sign op) : a = b ∧ x = y ∧ s = t := by
  rcases append_cons_cases h with ⟨hab, hxy, hst⟩ | ⟨more, hb, _⟩ | ⟨more, ha, _⟩
  · exact ⟨(List.map_inj_right fun _ _ heq => Token.sign.inj heq).mp hab, hxy, hst⟩
  · have hmem : x ∈ b.map Token.sign := by simp [hb]
    obtain ⟨op, _, rfl⟩ := List.mem_map.mp hmem
    exact absurd rfl (hx op)
  · have hmem : y ∈ a.map Token.sign := by simp [ha]
    obtain ⟨op, _, rfl⟩ := List.mem_map.mp hmem
    exact absurd rfl (hy op)

/-- Two phrases with the same tokens that are cut at different operators, the first one before the
second. -/
structure Overlap (lhs : Phrase) (op : Operator) (rhs lhs' : Phrase) (op' : Operator) : Prop where
  /-- The first operator belongs to the left operand of the second phrase. -/
  mem_spine : op ∈ lhs'.spine
  /-- The second operator belongs to the right operand of the first phrase. -/
  mem_spine' : op' ∈ rhs.spine
  /-- The left operand of the second phrase has more operators. -/
  size_lt : lhs.grouping.size < lhs'.grouping.size

/-- Phrases with the same tokens that are cut at different operators overlap. -/
theorem overlap_of_append {lhs rhs lhs' rhs' : Phrase} {op op' : Operator} {more : List Token}
    (hlhs : lhs'.tokens = lhs.tokens ++ .operator op :: more)
    (hrhs : rhs.tokens = more ++ .operator op' :: rhs'.tokens) : Overlap lhs op rhs lhs' op' := by
  have hspine : lhs'.spine = lhs.spine ++ op :: outside 0 more := by
    rw [← outside_tokens, hlhs, outside_append]
    simp [outside]
  have hwhole : (binary lhs op rhs).tokens = (binary lhs' op' rhs').tokens := by
    simp [tokens, hlhs, hrhs]
  have hspine' := spine_eq_of_tokens_eq hwhole
  rw [spine, spine, hspine, List.append_assoc, List.append_cancel_left_eq, List.cons_append,
    List.cons_inj_right] at hspine'
  refine ⟨by simp [hspine], by simp [hspine'], ?_⟩
  rw [← count_tokens, ← count_tokens, hlhs, List.countP_append, List.countP_cons, if_pos rfl]
  omega

/-- Two phrases that are cut at different operators at one place. -/
inductive Diverges : Phrase → Phrase → Prop
  | cut {lhs rhs lhs' rhs' : Phrase} {op op' : Operator}
      (hoverlap : Overlap lhs op rhs lhs' op' ∨ Overlap lhs' op' rhs' lhs op) :
      Diverges (binary lhs op rhs) (binary lhs' op' rhs')
  | lhs {lhs rhs lhs' rhs' : Phrase} {op op' : Operator} (h : Diverges lhs lhs') :
      Diverges (binary lhs op rhs) (binary lhs' op' rhs')
  | rhs {lhs rhs lhs' rhs' : Phrase} {op op' : Operator} (h : Diverges rhs rhs') :
      Diverges (binary lhs op rhs) (binary lhs' op' rhs')
  | group {signs : List UnaryOperator} {inner inner' : Phrase} (h : Diverges inner inner') :
      Diverges (group signs inner) (group signs inner')

/-- Phrases with the same tokens are the same unless they are cut differently somewhere. -/
theorem eq_or_diverges {p q : Phrase} (h : p.tokens = q.tokens) : p = q ∨ Diverges p q := by
  induction p generalizing q with
  | operand signs text =>
    cases q with
    | operand signs' text' =>
      obtain ⟨rfl, htext, _⟩ := signs_eq_of_append h (by simp) (by simp)
      cases htext
      exact .inl rfl
    | group signs' inner' =>
      obtain ⟨_, hopen, _⟩ := signs_eq_of_append h (by simp) (by simp)
      cases hopen
    | binary lhs' op' rhs' =>
      have hspine := spine_eq_of_tokens_eq h
      simp [spine] at hspine
  | group signs inner ih =>
    cases q with
    | operand signs' text' =>
      obtain ⟨_, hopen, _⟩ := signs_eq_of_append h (by simp) (by simp)
      cases hopen
    | group signs' inner' =>
      obtain ⟨rfl, _, hrest⟩ := signs_eq_of_append h (by simp) (by simp)
      have hinner : inner.tokens = inner'.tokens := List.append_cancel_right hrest
      rcases ih hinner with rfl | hdiverges
      · exact .inl rfl
      · exact .inr (.group hdiverges)
    | binary lhs' op' rhs' =>
      have hspine := spine_eq_of_tokens_eq h
      simp [spine] at hspine
  | binary lhs op rhs ihl ihr =>
    cases q with
    | operand | group =>
      have hspine := spine_eq_of_tokens_eq h
      simp [spine] at hspine
    | binary lhs' op' rhs' =>
      rcases append_cons_cases h with ⟨hlhs, hop, hrhs⟩ | ⟨more, hlhs, hrhs⟩ | ⟨more, hlhs, hrhs⟩
      · cases hop
        rcases ihl hlhs with rfl | hdiverges
        · rcases ihr hrhs with rfl | hdiverges
          · exact .inl rfl
          · exact .inr (.rhs hdiverges)
        · exact .inr (.lhs hdiverges)
      · exact .inr (.cut (.inl (overlap_of_append hlhs hrhs)))
      · exact .inr (.cut (.inr (overlap_of_append hlhs hrhs)))

/-- Of two phrases that are cut differently at most one is tight. -/
theorem Diverges.not_tight {p q : Phrase} (h : Diverges p q) (hp : p.Tight) : ¬q.Tight := by
  have hnot {lhs rhs lhs' rhs' : Phrase} {op op' : Operator} (hp : (binary lhs op rhs).Tight)
      (hq : (binary lhs' op' rhs').Tight) : ¬Overlap lhs op rhs lhs' op' := by
    intro hoverlap
    have hle := level_le_of_fitsBefore hq.1 hq.2.2.1 hoverlap.mem_spine
    have hlt := level_lt_of_fitsBehind hp.2.1 hp.2.2.2 hoverlap.mem_spine'
    omega
  intro hq
  induction h with
  | cut hoverlap =>
    rcases hoverlap with hoverlap | hoverlap
    · exact hnot hp hq hoverlap
    · exact hnot hq hp hoverlap
  | lhs _ ih => exact ih hp.1 hq.1
  | rhs _ ih => exact ih hp.2.1 hq.2.1
  | group _ ih => exact ih hp hq

/-- Two phrases that are cut differently have different groupings. -/
theorem Diverges.grouping_ne {p q : Phrase} (h : Diverges p q) : p.grouping ≠ q.grouping := by
  induction h with
  | cut hoverlap =>
    intro heq
    obtain ⟨hlhs, _, _⟩ := Grouping.binary.inj heq
    rcases hoverlap with hoverlap | hoverlap
    · have hlt := hoverlap.size_lt
      rw [hlhs] at hlt
      omega
    · have hlt := hoverlap.size_lt
      rw [hlhs] at hlt
      omega
  | lhs _ ih => exact fun heq => ih (Grouping.binary.inj heq).1
  | rhs _ ih => exact fun heq => ih (Grouping.binary.inj heq).2.2
  | group _ ih => exact fun heq => ih (Grouping.signed_inj heq)

/-- The operands among the tokens are those of the grouping. -/
theorem mem_operands_iff {phrase : Phrase} {text : List Char} :
    text ∈ phrase.grouping.operands ↔ .operand text ∈ phrase.tokens := by
  induction phrase with
  | operand signs text' => simp [tokens, grouping, Grouping.operands]
  | group signs inner ih => simp [tokens, grouping, ih]
  | binary lhs op rhs ihl ihr => simp [tokens, grouping, Grouping.operands, ihl, ihr]

end Phrase

/-- Whether the text of an expression is read with a grouping: it is the text of a tight phrase that
has this grouping. -/
def IsReading (text : List Char) (grouping : Grouping) : Prop :=
  ∃ phrase : Phrase, tokenize false text = some phrase.tokens ∧ phrase.Tight ∧
    phrase.grouping = grouping

/-- A text has at most one reading. -/
theorem IsReading.unique {text : List Char} {a b : Grouping} (ha : IsReading text a)
    (hb : IsReading text b) : a = b := by
  obtain ⟨p, hp, hptight, rfl⟩ := ha
  obtain ⟨q, hq, hqtight, rfl⟩ := hb
  rw [hp, Option.some.injEq] at hq
  rcases Phrase.eq_or_diverges hq with rfl | hdiverges
  · rfl
  · exact absurd hqtight (hdiverges.not_tight hptight)

end NifBindings
