import NifBindings.Proofs.Basic
import NifBindings.Proofs.Expr.Shape

/-!
# Respelled operators

A symbolic token between two spaces may be written in its native spelling and the other way round.
Reading an expression cuts its text at spaces and takes parentheses off its ends, and either keeps
the two texts alike word by word, although an operator may come to stand at the end of an operand
with nothing beside it. So both texts read as the same expression, or neither can be read.
-/

namespace NifBindings

/-- Words that are equal or spell the same operator. -/
inductive SameWord : List Char → List Char → Prop
  | same {word : List Char} (hword : ' ' ∉ word) : SameWord word word
  | spelled {a b : Spelling} (hop : a.operator = b.operator) :
      SameWord a.text.toList b.text.toList

/-- Texts whose words, which single spaces keep apart, are equal or spell the same operators. -/
inductive SameWords : List Char → List Char → Prop
  | word {a b : List Char} (hword : SameWord a b) : SameWords a b
  | cons {a b s t : List Char} (hword : SameWord a b) (hrest : SameWords s t) :
      SameWords (a ++ ' ' :: s) (b ++ ' ' :: t)

theorem SameWord.symm {a b : List Char} (h : SameWord a b) : SameWord b a := by
  cases h with
  | same hword => exact .same hword
  | spelled hop => exact .spelled hop.symm

theorem SameWord.space_not_mem {a b : List Char} (h : SameWord a b) : ' ' ∉ a := by
  cases h with
  | same hword => exact hword
  | spelled => exact Spelling.space_not_mem_text _

namespace SameWords

theorem symm {s t : List Char} (h : SameWords s t) : SameWords t s := by
  induction h with
  | word hword => exact .word hword.symm
  | cons hword _ ih => exact .cons hword.symm ih

/-- Texts alike word by word stay so with a space between them. -/
theorem append {a b s t : List Char} (hab : SameWords a b) (hst : SameWords s t) :
    SameWords (a ++ ' ' :: s) (b ++ ' ' :: t) := by
  induction hab with
  | word hword => exact .cons hword hst
  | cons hword _ ih =>
    rw [List.append_assoc, List.cons_append, List.append_assoc, List.cons_append]
    exact .cons hword ih

/-- A text is like itself. -/
theorem refl (text : List Char) : SameWords text text := by
  induction hlength : text.length using Nat.strongRecOn generalizing text with
  | _ length ih =>
    subst hlength
    by_cases hspace : ' ' ∈ text
    · obtain ⟨front, rest, rfl⟩ := List.append_of_mem hspace
      exact append (ih _ (by simp) front rfl) (ih _ (by simp; omega) rest rfl)
    · exact .word (.same hspace)

/-- A text cut at a space is like a text cut at a space with both sides alike. -/
theorem exists_of_append {front rest text : List Char}
    (h : SameWords (front ++ ' ' :: rest) text) :
    ∃ front' rest', text = front' ++ ' ' :: rest' ∧ SameWords front front' ∧
      SameWords rest rest' := by
  generalize hwhole : front ++ ' ' :: rest = whole at h
  induction h generalizing front with
  | word hword =>
    subst hwhole
    exact absurd (by simp) hword.space_not_mem
  | @cons a b s t hword hrest ih =>
    rcases append_cons_cases hwhole with ⟨rfl, _, rfl⟩ | ⟨more, rfl, _⟩ | ⟨more, rfl, hs⟩
    · exact ⟨b, t, rfl, .word hword, hrest⟩
    · exact absurd (by simp) hword.space_not_mem
    · obtain ⟨front', rest', rfl, hfront, hrest'⟩ := ih hs.symm
      exact ⟨b ++ ' ' :: front', rest', by simp, .cons hword hfront, hrest'⟩

/-- Texts alike word by word have as many spaces. -/
theorem count_space {s t : List Char} (h : SameWords s t) : s.count ' ' = t.count ' ' := by
  induction h with
  | word hword =>
    rw [List.count_eq_zero.mpr hword.space_not_mem,
      List.count_eq_zero.mpr hword.symm.space_not_mem]
  | cons hword _ ih =>
    simp only [List.count_append, List.count_cons, List.count_eq_zero.mpr hword.space_not_mem,
      List.count_eq_zero.mpr hword.symm.space_not_mem, ih]

/-- Texts alike word by word have the same parentheses. -/
theorem filter_isParenthesis {s t : List Char} (h : SameWords s t) :
    s.filter isParenthesis = t.filter isParenthesis := by
  have hword {a b : List Char} (hword : SameWord a b) :
      a.filter isParenthesis = b.filter isParenthesis := by
    cases hword with
    | same => rfl
    | spelled => rw [Spelling.filter_isParenthesis_text, Spelling.filter_isParenthesis_text]
  induction h with
  | word h => exact hword h
  | cons h _ ih => simp only [List.filter_append, List.filter_cons, hword h, ih]

theorem balanced_eq {s t : List Char} (h : SameWords s t) : balanced s = balanced t := by
  rw [balanced, balanced, ← balancedFrom_filter, h.filter_isParenthesis, balancedFrom_filter]

theorem depthFrom_eq {s t : List Char} (h : SameWords s t) (depth : Nat) :
    depthFrom depth s = depthFrom depth t := by
  rw [← depthFrom_filter, h.filter_isParenthesis, depthFrom_filter]

/-- Texts alike word by word are equal, or both are compound. -/
theorem eq_or_isCompound {s t : List Char} (h : SameWords s t) :
    s = t ∨ isCompound s = true ∧ isCompound t = true := by
  have hword {a b : List Char} (hword : SameWord a b) :
      a = b ∨ isCompound a = true ∧ isCompound b = true := by
    cases hword with
    | same => exact .inl rfl
    | @spelled a b =>
      exact .inr ⟨isCompound_iff.mpr (.inr (.inr ⟨a, List.infix_rfl⟩)),
        isCompound_iff.mpr (.inr (.inr ⟨b, List.infix_rfl⟩))⟩
  induction h with
  | word h => exact hword h
  | @cons a b s t h _ ih =>
    have hfront (x y : List Char) : x <:+: x ++ ' ' :: y := ⟨[], ' ' :: y, by simp⟩
    have hbehind (x y : List Char) : y <:+: x ++ ' ' :: y := ⟨x ++ [' '], [], by simp⟩
    rcases hword h with rfl | ⟨ha, hb⟩
    · rcases ih with rfl | ⟨hs, ht⟩
      · exact .inl rfl
      · exact .inr ⟨isCompound_of_isInfix (hbehind _ _) hs,
          isCompound_of_isInfix (hbehind _ _) ht⟩
    · exact .inr ⟨isCompound_of_isInfix (hfront _ _) ha, isCompound_of_isInfix (hfront _ _) hb⟩

/-- An empty text is like no other. -/
theorem ne_nil {s t : List Char} (h : SameWords s t) (hs : s ≠ []) : t ≠ [] := by
  cases h with
  | word hword =>
    cases hword with
    | same => exact hs
    | @spelled a b =>
      have hall : ∀ op ∈ Spelling.all, op.text.toList ≠ [] := by decide +kernel
      exact hall b b.mem_all
  | cons => simp

/-- A text like the spelling of an operator is a spelling of that operator. -/
theorem exists_spelling {op : Spelling} {text : List Char} (h : SameWords op.text.toList text) :
    ∃ other : Spelling, text = other.text.toList ∧ op.operator = other.operator := by
  generalize hwhole : op.text.toList = whole at h
  cases h with
  | word hword =>
    cases hword with
    | same => exact ⟨op, hwhole.symm, rfl⟩
    | @spelled a b hop =>
      have ha : some op = some a := by rw [← op.ofText?_text, hwhole, a.ofText?_text]
      cases ha
      exact ⟨b, rfl, hop⟩
  | cons =>
    have hspace := op.space_not_mem_text
    simp [hwhole] at hspace

/-- A parenthesis in the first word stands at the same place of every text like this one, and what
stands behind it is alike, with the parenthesis and without. -/
theorem exists_of_open {front rest text : List Char} (hfront : ' ' ∉ front)
    (h : SameWords (front ++ '(' :: rest) text) :
    ∃ rest', text = front ++ '(' :: rest' ∧ SameWords ('(' :: rest) ('(' :: rest') ∧
      SameWords rest rest' := by
  have hsame {more b : List Char} (hword : SameWord (front ++ '(' :: more) b) :
      b = front ++ '(' :: more ∧ ' ' ∉ more := by
    generalize hwhole : front ++ '(' :: more = whole at hword
    cases hword with
    | same hspace => exact ⟨rfl, fun hmem => hspace (hwhole ▸ by simp [hmem])⟩
    | @spelled op =>
      have hmem : '(' ∈ op.text.toList := by simp [← hwhole]
      exact absurd hmem op.open_not_mem_text
  generalize hwhole : front ++ '(' :: rest = whole at h
  cases h with
  | word hword =>
    subst hwhole
    obtain ⟨rfl, _⟩ := hsame hword
    exact ⟨rest, rfl, .refl _, .refl _⟩
  | @cons a b s t hword hst =>
    rcases append_cons_cases hwhole with ⟨_, hc, _⟩ | ⟨more, rfl, rfl⟩ | ⟨more, rfl, _⟩
    · cases hc
    · obtain ⟨rfl, hspace⟩ := hsame hword
      have hgroup : SameWord ('(' :: more) ('(' :: more) := .same (by simp [hspace])
      exact ⟨more ++ ' ' :: t, by simp, .cons hgroup hst, .cons (.same hspace) hst⟩
    · exact absurd (by simp) hfront

/-- A parenthesis at the end of a text stands at the end of every text like it. -/
theorem exists_of_close {s text : List Char} (h : SameWords (s ++ [')']) text) :
    ∃ s', text = s' ++ [')'] ∧ SameWords s s' := by
  generalize hwhole : s ++ [')'] = whole at h
  induction h generalizing s with
  | word hword =>
    cases hword with
    | same hspace =>
      subst hwhole
      exact ⟨s, rfl, .word (.same fun hmem => hspace (by simp [hmem]))⟩
    | @spelled op =>
      have hmem : ')' ∈ op.text.toList := by simp [← hwhole]
      exact absurd hmem op.close_not_mem_text
  | @cons a b x y hword hxy ih =>
    rcases append_cons_cases hwhole with ⟨_, hc, _⟩ | ⟨more, _, hmore⟩ | ⟨more, rfl, hx⟩
    · cases hc
    · simp at hmore
    · obtain ⟨y', rfl, hy⟩ := ih hx.symm
      exact ⟨b ++ ' ' :: y', by simp, .cons hword hy⟩

end SameWords

/-- Cuts and shapes of two texts that are alike: the operator is the same one, and the operands are
alike. -/
structure SameSplit (a b : Split) : Prop where
  lhs : SameWords a.lhs b.lhs
  operator : a.op.operator = b.op.operator
  rhs : SameWords a.rhs b.rhs

/-- A cut of a text is a cut of every text like it. -/
theorem IsCut.exists_same {s t : List Char} (h : SameWords s t) {a : Split} (ha : IsCut s a) :
    ∃ b, IsCut t b ∧ SameSplit a b := by
  rw [ha.text_eq] at h
  obtain ⟨lhs, behind, rfl, hlhs, hbehind⟩ := h.exists_of_append
  obtain ⟨op, rhs, rfl, hop, hrhs⟩ := hbehind.exists_of_append
  obtain ⟨op, rfl, hoperator⟩ := hop.exists_spelling
  refine ⟨⟨lhs, op, rhs⟩, ⟨rfl, ?_, hlhs.ne_nil ha.lhs_ne_nil, hrhs.ne_nil ha.rhs_ne_nil⟩,
    ⟨hlhs, hoperator, hrhs⟩⟩
  exact (hlhs.depthFrom_eq 0).symm.trans ha.depth_eq

/-- Of two cuts of a text, the one with the longer left side has more spaces in it. -/
theorem IsCut.count_lt {text : List Char} {a b : Split} (ha : IsCut text a) (hb : IsCut text b)
    (hlength : a.lhs.length < b.lhs.length) : a.lhs.count ' ' < b.lhs.count ' ' := by
  rcases append_cons_cases (ha.text_eq.symm.trans hb.text_eq) with
    ⟨hsame, _⟩ | ⟨more, hmore, _⟩ | ⟨more, hmore, _⟩
  · rw [hsame] at hlength
    omega
  · rw [hmore, List.count_append, List.count_cons_self]
    omega
  · rw [hmore, List.length_append] at hlength
    omega

/-- Texts that are alike are split alike. The longest left side is the one with the most spaces, and
these are as many in both texts. -/
theorem exists_splitBinary?_of_sameWords {s t : List Char} (h : SameWords s t) {a : Split}
    (ha : splitBinary? s = some a) : ∃ b, splitBinary? t = some b ∧ SameSplit a b := by
  obtain ⟨hcut, hlongest⟩ := splitBinary?_eq_some_iff.mp ha
  obtain ⟨b, hb, hab⟩ := hcut.exists_same h
  refine ⟨b, splitBinary?_eq_some_iff.mpr ⟨hb, ?_⟩, hab⟩
  intro d hd
  obtain ⟨c, hc, hdc⟩ := hd.exists_same h.symm
  have hcounta := hab.lhs.count_space
  have hcountd := hdc.lhs.count_space
  refine Nat.not_lt.mp fun hlt => ?_
  have hmore := hb.count_lt hd hlt
  rcases Nat.lt_or_eq_of_le (hlongest c hc) with hless | hequal
  · have := hc.count_lt hcut hless
    omega
  · rw [hc.eq_of_length_eq hcut hequal] at hcountd
    omega

/-- A text like a group is a group with a text like the inside. -/
theorem exists_unwrapGroup?_of_sameWords {s t inside : List Char} (h : SameWords s t)
    (hs : unwrapGroup? s = some inside) :
    ∃ inside', unwrapGroup? t = some inside' ∧ SameWords inside inside' := by
  obtain ⟨rfl, hbalanced⟩ := unwrapGroup?_eq_some_iff.mp hs
  obtain ⟨rest, rfl, _, hrest⟩ := SameWords.exists_of_open List.not_mem_nil h
  obtain ⟨inside', rfl, hinside⟩ := hrest.exists_of_close
  exact ⟨inside', unwrapGroup?_eq_some_iff.mpr ⟨rfl, hinside.balanced_eq ▸ hbalanced⟩, hinside⟩

/-- A group behind unary operators stands behind the same operators in every text like it. -/
theorem takeUnary_of_sameWords {s t rest : List Char} (h : SameWords s t)
    (hs : (takeUnary s).2 = '(' :: rest) :
    (takeUnary t).1 = (takeUnary s).1 ∧ SameWords (takeUnary s).2 (takeUnary t).2 := by
  have hspace : ' ' ∉ (takeUnary s).1.map UnaryOperator.char := by
    intro hmem
    obtain ⟨op, _, hop⟩ := List.mem_map.mp hmem
    cases op <;> exact absurd hop (by decide)
  have hwhole := takeUnary_append s
  rw [hs] at hwhole
  rw [← hwhole] at h
  obtain ⟨rest', rfl, hgroup, _⟩ := h.exists_of_open hspace
  have hopen (more : List Char) : takeUnary ('(' :: more) = ([], '(' :: more) := rfl
  rw [takeUnary_map_append, hopen, hs]
  exact ⟨List.append_nil _, hgroup⟩

/-- A text with both operands in parentheses begins with one. -/
theorem eq_open_of_splitGrouped? {text : List Char} {split : Split}
    (h : splitGrouped? text = some split) : ∃ rest, text = '(' :: rest := by
  obtain ⟨outer, houter, hlhs, _⟩ := splitGrouped?_eq_some_iff.mp h
  have htext := (splitBinary?_eq_some_iff.mp houter).1.text_eq
  rw [(unwrapGroup?_eq_some_iff.mp hlhs).1] at htext
  exact ⟨_, htext⟩

/-- A text in parentheses begins with one. -/
theorem eq_open_of_splitParenthesized? {text : List Char} {split : Split}
    (h : splitParenthesized? text = some split) : ∃ rest, text = '(' :: rest := by
  obtain ⟨inside, hinside, _⟩ := splitParenthesized?_eq_some_iff.mp h
  exact ⟨_, (unwrapGroup?_eq_some_iff.mp hinside).1⟩

/-- Texts with both operands in parentheses are split alike behind their unary operators. -/
theorem exists_splitGrouped?_of_sameWords {s t : List Char} (h : SameWords s t) {a : Split}
    (ha : splitGrouped? (takeUnary s).2 = some a) :
    (takeUnary t).1 = (takeUnary s).1 ∧
      ∃ b, splitGrouped? (takeUnary t).2 = some b ∧ SameSplit a b := by
  obtain ⟨rest, hrest⟩ := eq_open_of_splitGrouped? ha
  obtain ⟨hunary, hsame⟩ := takeUnary_of_sameWords h hrest
  refine ⟨hunary, ?_⟩
  obtain ⟨outer, houter, hlhs, hop, hrhs⟩ := splitGrouped?_eq_some_iff.mp ha
  obtain ⟨outer', houter', hsplit⟩ := exists_splitBinary?_of_sameWords hsame houter
  obtain ⟨lhs, hlhs', hlhs⟩ := exists_unwrapGroup?_of_sameWords hsplit.lhs hlhs
  obtain ⟨rhs, hrhs', hrhs⟩ := exists_unwrapGroup?_of_sameWords hsplit.rhs hrhs
  exact ⟨⟨lhs, outer'.op, rhs⟩,
    splitGrouped?_eq_some_iff.mpr ⟨outer', houter', hlhs', rfl, hrhs'⟩,
    ⟨hlhs, hop ▸ hsplit.operator, hrhs⟩⟩

/-- Texts in parentheses are split alike behind their unary operators. -/
theorem exists_splitParenthesized?_of_sameWords {s t : List Char} (h : SameWords s t) {a : Split}
    (ha : splitParenthesized? (takeUnary s).2 = some a) :
    (takeUnary t).1 = (takeUnary s).1 ∧
      ∃ b, splitParenthesized? (takeUnary t).2 = some b ∧ SameSplit a b := by
  obtain ⟨rest, hrest⟩ := eq_open_of_splitParenthesized? ha
  obtain ⟨hunary, hsame⟩ := takeUnary_of_sameWords h hrest
  refine ⟨hunary, ?_⟩
  obtain ⟨inside, hinside, hsplit⟩ := splitParenthesized?_eq_some_iff.mp ha
  obtain ⟨inside', hinside', hin⟩ := exists_unwrapGroup?_of_sameWords hsame hinside
  obtain ⟨b, hb, hab⟩ := exists_splitBinary?_of_sameWords hin hsplit
  exact ⟨b, splitParenthesized?_eq_some_iff.mpr ⟨inside', hinside', hb⟩, hab⟩

/-- Texts that are alike have the same shape with the same unary operators and the same operator,
and operands that are alike. -/
theorem exists_matchShape?_of_sameWords {s t : List Char} (h : SameWords s t) {found : ShapeMatch}
    (hs : matchShape? s = some found) :
    ∃ found', matchShape? t = some found' ∧ found'.unary = found.unary ∧
      SameWords found.lhs found'.lhs ∧ found.op.operator = found'.op.operator ∧
      SameWords found.rhs found'.rhs := by
  obtain ⟨hbalanced, hshape⟩ := matchShape?_eq_some_iff.mp hs
  rw [h.balanced_eq] at hbalanced
  have hgrouped (hnone : splitGrouped? (takeUnary s).2 = none) :
      splitGrouped? (takeUnary t).2 = none := by
    refine Option.eq_none_iff_forall_ne_some.mpr fun b hb => ?_
    obtain ⟨_, a, ha, _⟩ := exists_splitGrouped?_of_sameWords h.symm hb
    rw [hnone] at ha
    cases ha
  have hparenthesized (hnone : splitParenthesized? (takeUnary s).2 = none) :
      splitParenthesized? (takeUnary t).2 = none := by
    refine Option.eq_none_iff_forall_ne_some.mpr fun b hb => ?_
    obtain ⟨_, a, ha, _⟩ := exists_splitParenthesized?_of_sameWords h.symm hb
    rw [hnone] at ha
    cases ha
  rcases hshape with ⟨a, ha, rfl⟩ | ⟨hnone, a, ha, rfl⟩ | ⟨hnone, hnone', a, ha, rfl⟩
  · obtain ⟨hunary, b, hb, hab⟩ := exists_splitGrouped?_of_sameWords h ha
    exact ⟨_, matchShape?_eq_some_iff.mpr ⟨hbalanced, .inl ⟨b, hb, rfl⟩⟩, hunary, hab.lhs,
      hab.operator, hab.rhs⟩
  · obtain ⟨hunary, b, hb, hab⟩ := exists_splitParenthesized?_of_sameWords h ha
    exact ⟨_, matchShape?_eq_some_iff.mpr ⟨hbalanced, .inr (.inl ⟨hgrouped hnone, b, hb, rfl⟩)⟩,
      hunary, hab.lhs, hab.operator, hab.rhs⟩
  · obtain ⟨b, hb, hab⟩ := exists_splitBinary?_of_sameWords h ha
    exact ⟨_, matchShape?_eq_some_iff.mpr ⟨hbalanced,
      .inr (.inr ⟨hgrouped hnone, hparenthesized hnone', b, hb, rfl⟩)⟩, rfl, hab.lhs,
      hab.operator, hab.rhs⟩

/-- A text reads as every expression that a text like it reads as. -/
theorem Expr.Reads.of_sameWords {s t : List Char} {expr : Expr} (hs : Expr.Reads s expr)
    (h : SameWords s t) : Expr.Reads t expr := by
  induction hs generalizing t with
  | leaf hleaf =>
    rcases h.eq_or_isCompound with rfl | ⟨hcompound, _⟩
    · exact .leaf hleaf
    · rw [hleaf] at hcompound
      cases hcompound
  | left hfound hop _ ih =>
    obtain ⟨found', hfound', _, hlhs, hoperator, _⟩ := exists_matchShape?_of_sameWords h hfound
    exact .left hfound' (hoperator ▸ hop) (ih hlhs)
  | node hfound hop _ _ ihlhs ihrhs =>
    obtain ⟨found', hfound', hunary, hlhs, hoperator, hrhs⟩ :=
      exists_matchShape?_of_sameWords h hfound
    rw [← hunary, hoperator]
    exact .node hfound' (hoperator ▸ hop) (ihlhs hlhs) (ihrhs hrhs)

/-- A text in which symbolic tokens between two spaces are replaced, one after the other, by the
native spellings of their operators. Neighbouring tokens may share a space. -/
inductive Respelled : List Char → List Char → Prop
  | refl (text : List Char) : Respelled text text
  | step (before behind : List Char) (op : Operator) {text : List Char}
      (h : Respelled (before ++ ' ' :: (op.native.toList ++ ' ' :: behind)) text) :
      Respelled (before ++ ' ' :: (op.token.toList ++ ' ' :: behind)) text

/-- Symbolic tokens and native spellings are interchangeable: a text reads as an expression exactly
if the text with any of its delimited tokens replaced reads as the same expression. -/
theorem parse_eq_ok_iff_of_respelled {s t : String} (h : Respelled s.toList t.toList)
    (expr : Expr) : Expr.parse s = .ok expr ↔ Expr.parse t = .ok expr := by
  unfold Expr.parse
  rw [Expr.parseChars_eq_ok_iff, Expr.parseChars_eq_ok_iff]
  generalize s.toList = s at h
  generalize t.toList = t at h
  induction h with
  | refl => exact Iff.rfl
  | step before behind op _ ih =>
    have hop : SameWord op.token.toList op.native.toList :=
      @SameWord.spelled (.symbolic op) (.native op) rfl
    have hsame := (SameWords.refl before).append ((SameWords.word hop).append (.refl behind))
    rw [← ih]
    exact ⟨fun hs => hs.of_sameWords hsame, fun ht => ht.of_sameWords hsame.symm⟩

/-- Two tokens at different depths that share no space. -/
theorem parse_respelled_nested :
    Respelled "!((A #AND# B) #OR# (C #SUB# 1))".toList "!((A && B) #OR# (C - 1))".toList ∧
      ∀ expr, Expr.parse "!((A #AND# B) #OR# (C #SUB# 1))" = .ok expr ↔
        Expr.parse "!((A && B) #OR# (C - 1))" = .ok expr := by
  have h : Respelled "!((A #AND# B) #OR# (C #SUB# 1))".toList
      "!((A && B) #OR# (C - 1))".toList :=
    .step "!((A".toList "B) #OR# (C #SUB# 1))".toList .and
      (.step "!((A && B) #OR# (C".toList "1))".toList .sub (.refl _))
  exact ⟨h, parse_eq_ok_iff_of_respelled h⟩

end NifBindings
