import NifBindings.Proofs.Expr.Nesting

/-!
# Cuts

A cut of a text is an operator outside parentheses with one space on each side and something before
and behind it. The scan lists exactly the cuts, each later one with a longer left side, so that the
text is split at the cut with the longest left side.
-/

namespace NifBindings

/-- No spelling of an operator holds a space. -/
theorem Spelling.space_not_mem_text (op : Spelling) : ' ' ∉ op.text.toList := by
  cases op with
  | symbolic op => cases op <;> decide
  | native op => cases op <;> decide

/-- An operator has no parentheses. -/
theorem Spelling.filter_isParenthesis_text (op : Spelling) :
    op.text.toList.filter isParenthesis = [] := by
  cases op with
  | symbolic op => cases op <;> decide
  | native op => cases op <;> decide

/-- No character of an operator is a parenthesis. -/
theorem Spelling.not_isParenthesis_of_mem {op : Spelling} {c : Char} (hc : c ∈ op.text.toList) :
    isParenthesis c = false := by
  have hfilter := List.filter_eq_nil_iff.mp op.filter_isParenthesis_text c hc
  simpa using hfilter

/-- No operator opens a group. -/
theorem Spelling.open_not_mem_text (op : Spelling) : '(' ∉ op.text.toList :=
  fun hmem => absurd (Spelling.not_isParenthesis_of_mem hmem) (by decide)

/-- No operator closes a group. -/
theorem Spelling.close_not_mem_text (op : Spelling) : ')' ∉ op.text.toList :=
  fun hmem => absurd (Spelling.not_isParenthesis_of_mem hmem) (by decide)

/-- An operator leaves the depth as it is. -/
theorem Spelling.depthFrom_text (op : Spelling) (depth : Nat) :
    depthFrom depth op.text.toList = depth := by
  rw [← depthFrom_filter, op.filter_isParenthesis_text, depthFrom_nil]

/-- The spelling that a text has is found. -/
theorem Spelling.ofText?_text (op : Spelling) : Spelling.ofText? op.text.toList = some op := by
  have hall : ∀ op ∈ Spelling.all, Spelling.ofText? op.text.toList = some op := by decide +kernel
  exact hall op op.mem_all

/-- A text spells an operator exactly if it is the text of that spelling. -/
theorem Spelling.ofText?_eq_some_iff {text : List Char} {op : Spelling} :
    Spelling.ofText? text = some op ↔ text = op.text.toList := by
  constructor
  · intro h
    have hfound : op.text.toList = text := by simpa using List.find?_some h
    exact hfound.symm
  · rintro rfl
    exact op.ofText?_text

/-- A text begins with an operator exactly if its spelling and a space stand there. -/
theorem leadingOperator?_eq_some_iff {text rest : List Char} {op : Spelling} :
    leadingOperator? text = some (op, rest) ↔ text = op.text.toList ++ ' ' :: rest := by
  constructor
  · intro h
    unfold leadingOperator? at h
    split at h
    · cases h
    next c tail hdrop =>
      obtain ⟨found, hfound, heq⟩ := Option.map_eq_some_iff.mp h
      cases heq
      rw [Spelling.ofText?_eq_some_iff] at hfound
      have hc : c = ' ' := by
        have hhead := List.head?_dropWhile_not (· != ' ') text
        simpa [hdrop] using hhead
      rw [← List.takeWhile_append_dropWhile (p := (· != ' ')) (l := text), hdrop, hfound, hc]
  · rintro rfl
    have hword : ∀ c ∈ op.text.toList, (c != ' ') = true := by
      intro c hc
      have hne : c ≠ ' ' := fun h => op.space_not_mem_text (h ▸ hc)
      simpa using hne
    unfold leadingOperator?
    rw [List.dropWhile_append_of_pos hword, List.takeWhile_append_of_pos hword]
    simp [op.ofText?_text]

/-- A cut of a text. -/
structure IsCut (text : List Char) (split : Split) : Prop where
  /-- The operator has one space on each side. -/
  text_eq : text = split.lhs ++ ' ' :: (split.op.text.toList ++ ' ' :: split.rhs)
  /-- It stands outside parentheses. -/
  depth_eq : depthFrom 0 split.lhs = 0
  /-- Something stands before it. -/
  lhs_ne_nil : split.lhs ≠ []
  /-- Something stands behind it. -/
  rhs_ne_nil : split.rhs ≠ []

/-- The cut at a space is the operator that follows it, if both sides are not empty. -/
theorem splitAtSpace?_eq_some_iff {before rest : List Char} {split : Split} :
    splitAtSpace? before rest = some split ↔
      split.lhs = before.reverse ∧ rest = split.op.text.toList ++ ' ' :: split.rhs ∧
        split.lhs ≠ [] ∧ split.rhs ≠ [] := by
  unfold splitAtSpace?
  constructor
  · intro h
    split at h
    next op rhs hlead =>
      split at h
      · cases h
      next hempty =>
        cases h
        simp only [List.isEmpty_iff, not_or] at hempty
        exact ⟨rfl, leadingOperator?_eq_some_iff.mp hlead, by simpa using hempty.1, hempty.2⟩
    next => cases h
  · rintro ⟨hlhs, hrest, hbefore, hrhs⟩
    rw [leadingOperator?_eq_some_iff.mpr hrest]
    have hempty : ¬(before.isEmpty = true ∨ split.rhs.isEmpty = true) := by
      rw [hlhs] at hbefore
      simpa [hrhs] using hbefore
    simp only [if_neg hempty, ← hlhs]

/-- The scan of a text lists its cuts. -/
theorem mem_splitsFrom_iff {depth : Nat} {before text : List Char} {split : Split} :
    split ∈ splitsFrom depth before text ↔
      ∃ front, split.lhs = before.reverse ++ front ∧
        text = front ++ ' ' :: (split.op.text.toList ++ ' ' :: split.rhs) ∧
        depthFrom depth front = 0 ∧ split.lhs ≠ [] ∧ split.rhs ≠ [] := by
  induction text generalizing depth before with
  | nil => simp [splitsFrom]
  | cons c rest ih =>
    rw [splitsFrom, List.mem_append, ih]
    constructor
    · rintro (h | ⟨front, hlhs, hrest, hdepth, hne⟩)
      · split at h
        next hspace =>
          obtain ⟨hlhs, hrest, hne⟩ := splitAtSpace?_eq_some_iff.mp (Option.mem_toList.mp h)
          exact ⟨[], by simpa using hlhs, by simp [hrest, hspace.1], hspace.2, hne⟩
        next => cases h
      · exact ⟨c :: front, by simpa using hlhs, by simp [hrest], hdepth, hne⟩
    · rintro ⟨front, hlhs, hrest, hdepth, hne⟩
      cases front with
      | nil =>
        left
        obtain ⟨rfl, hbehind⟩ := List.cons.inj hrest
        rw [if_pos ⟨rfl, hdepth⟩, Option.mem_toList]
        exact splitAtSpace?_eq_some_iff.mpr ⟨by simpa using hlhs, hbehind, hne⟩
      | cons d front =>
        right
        obtain ⟨rfl, hbehind⟩ := List.cons.inj hrest
        exact ⟨front, by simpa using hlhs, hbehind, hdepth, hne⟩

/-- Each cut of the scan has a longer left side than the cuts before it. -/
theorem pairwise_splitsFrom (depth : Nat) (before text : List Char) :
    (splitsFrom depth before text).Pairwise fun a b => a.lhs.length < b.lhs.length := by
  induction text generalizing depth before with
  | nil => exact List.Pairwise.nil
  | cons c rest ih =>
    rw [splitsFrom, List.pairwise_append]
    refine ⟨?_, ih _ _, ?_⟩
    · split
      · cases splitAtSpace? before rest <;> simp
      · exact List.Pairwise.nil
    · intro a ha b hb
      obtain ⟨front, hlhs, _⟩ := mem_splitsFrom_iff.mp hb
      split at ha
      · have ha := splitAtSpace?_eq_some_iff.mp (Option.mem_toList.mp ha)
        rw [ha.1, hlhs]
        simp only [List.length_append, List.length_reverse, List.length_cons]
        omega
      · cases ha

/-- The scan of a whole text lists exactly its cuts. -/
theorem mem_splitsFrom_iff_isCut {text : List Char} {split : Split} :
    split ∈ splitsFrom 0 [] text ↔ IsCut text split := by
  rw [mem_splitsFrom_iff]
  constructor
  · rintro ⟨front, hlhs, htext, hdepth, hne, hrhs⟩
    rw [List.reverse_nil, List.nil_append] at hlhs
    subst hlhs
    exact ⟨htext, hdepth, hne, hrhs⟩
  · rintro ⟨htext, hdepth, hne, hrhs⟩
    exact ⟨split.lhs, rfl, htext, hdepth, hne, hrhs⟩

/-- Two cuts of a text with left sides of one length are the same. -/
theorem IsCut.eq_of_length_eq {text : List Char} {a b : Split} (ha : IsCut text a)
    (hb : IsCut text b) (hlength : a.lhs.length = b.lhs.length) : a = b := by
  obtain ⟨hlhs, hbehind⟩ := List.append_inj (ha.text_eq.symm.trans hb.text_eq) hlength
  have hrest : a.op.text.toList ++ ' ' :: a.rhs = b.op.text.toList ++ ' ' :: b.rhs :=
    (List.cons.inj hbehind).2
  have hlead : some (a.op, a.rhs) = some (b.op, b.rhs) :=
    (leadingOperator?_eq_some_iff.mpr rfl).symm.trans (leadingOperator?_eq_some_iff.mpr hrest)
  obtain ⟨hop, hrhs⟩ := Prod.mk.inj (Option.some.inj hlead)
  cases a
  cases b
  simp_all

/-- A text is split at the cut with the longest left side. -/
theorem splitBinary?_eq_some_iff {text : List Char} {split : Split} :
    splitBinary? text = some split ↔
      IsCut text split ∧ ∀ other, IsCut text other → other.lhs.length ≤ split.lhs.length := by
  unfold splitBinary?
  have hsorted := pairwise_splitsFrom 0 [] text
  have hmem {split : Split} : split ∈ splitsFrom 0 [] text ↔ IsCut text split :=
    mem_splitsFrom_iff_isCut
  cases hlast : (splitsFrom 0 [] text).getLast? with
  | none =>
    have hnil := List.getLast?_eq_none_iff.mp hlast
    constructor
    · intro h
      cases h
    · rintro ⟨hcut, _⟩
      have := hmem.mpr hcut
      simp [hnil] at this
  | some last =>
    obtain ⟨front, hfront⟩ := List.getLast?_eq_some_iff.mp hlast
    have hcut : IsCut text last := hmem.mp (by simp [hfront])
    have hlongest : ∀ other, IsCut text other → other.lhs.length ≤ last.lhs.length := by
      intro other hother
      have hin := hmem.mpr hother
      rw [hfront, List.mem_append, List.mem_singleton] at hin
      rcases hin with hin | rfl
      · rw [hfront, List.pairwise_append] at hsorted
        exact Nat.le_of_lt (hsorted.2.2 other hin last (by simp))
      · exact Nat.le_refl _
    constructor
    · intro h
      cases h
      exact ⟨hcut, hlongest⟩
    · rintro ⟨hsplit, hmax⟩
      have hlength : last.lhs.length = split.lhs.length :=
        Nat.le_antisymm (hmax last hcut) (hlongest split hsplit)
      rw [hcut.eq_of_length_eq hsplit hlength]

end NifBindings
