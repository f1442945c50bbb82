import NifBindings.Expr.Shape

/-!
# Nesting of parentheses

A text with fitting parentheses may stand anywhere in another text: it neither disturbs whether the
parentheses around it fit, nor moves the depth behind it, and inside a group no operator of it can
become a cut. Characters that are no parentheses count for nothing.
-/

namespace NifBindings

/-- The depth of parentheses behind a text that starts at some depth. -/
def depthFrom (depth : Nat) (text : List Char) : Nat :=
  text.foldl depthAfter depth

@[simp] theorem depthFrom_nil (depth : Nat) : depthFrom depth [] = depth := rfl

@[simp] theorem depthFrom_cons (depth : Nat) (c : Char) (text : List Char) :
    depthFrom depth (c :: text) = depthFrom (depthAfter depth c) text := rfl

theorem depthFrom_append (depth : Nat) (a b : List Char) :
    depthFrom depth (a ++ b) = depthFrom (depthFrom depth a) b :=
  List.foldl_append

@[simp] theorem depthAfter_space (depth : Nat) : depthAfter depth ' ' = depth := rfl

@[simp] theorem depthAfter_open (depth : Nat) : depthAfter depth '(' = depth + 1 := rfl

@[simp] theorem depthAfter_close (depth : Nat) : depthAfter depth ')' = depth - 1 := rfl

/-- Only parentheses move the depth. -/
theorem depthAfter_of_ne {depth : Nat} {c : Char} (hopen : c ≠ '(') (hclose : c ≠ ')') :
    depthAfter depth c = depth := by
  simp [depthAfter, hopen, hclose]

/-- Whether a character is a parenthesis. -/
def isParenthesis (c : Char) : Bool :=
  c == '(' || c == ')'

theorem not_isParenthesis_iff {c : Char} : isParenthesis c = false ↔ c ≠ '(' ∧ c ≠ ')' := by
  simp [isParenthesis]

/-- The depth behind a text is decided by its parentheses. -/
theorem depthFrom_filter (depth : Nat) (text : List Char) :
    depthFrom depth (text.filter isParenthesis) = depthFrom depth text := by
  induction text generalizing depth with
  | nil => rfl
  | cons c rest ih =>
    by_cases hc : isParenthesis c = true
    · rw [List.filter_cons_of_pos hc, depthFrom_cons, depthFrom_cons, ih]
    · obtain ⟨hopen, hclose⟩ := not_isParenthesis_iff.mp (Bool.not_eq_true _ ▸ hc)
      rw [List.filter_cons_of_neg hc, depthFrom_cons, depthAfter_of_ne hopen hclose, ih]

/-- Whether the parentheses of a text fit is decided by them alone. -/
theorem balancedFrom_filter (depth : Nat) (text : List Char) :
    balancedFrom depth (text.filter isParenthesis) = balancedFrom depth text := by
  induction text generalizing depth with
  | nil => rfl
  | cons c rest ih =>
    by_cases hc : isParenthesis c = true
    · rw [List.filter_cons_of_pos hc, balancedFrom, balancedFrom, ih]
    · obtain ⟨hopen, hclose⟩ := not_isParenthesis_iff.mp (Bool.not_eq_true _ ▸ hc)
      rw [List.filter_cons_of_neg hc, balancedFrom, depthAfter_of_ne hopen hclose, ih]
      simp [hclose]

/-- A text without parentheses is balanced. -/
theorem balanced_of_not_mem {text : List Char} (hopen : '(' ∉ text) (hclose : ')' ∉ text) :
    balanced text = true := by
  have hfilter : text.filter isParenthesis = [] := by
    rw [List.filter_eq_nil_iff]
    intro c hc
    rw [Bool.not_eq_true, not_isParenthesis_iff]
    exact ⟨fun h => hopen (h ▸ hc), fun h => hclose (h ▸ hc)⟩
  rw [balanced, ← balancedFrom_filter, hfilter]
  rfl

/-- A character that closes no group below an inner depth moves any greater depth in the same
way. -/
theorem depthAfter_add {inner : Nat} {c : Char} (hdip : ¬(c = ')' ∧ inner = 0)) (depth : Nat) :
    depthAfter (inner + depth) c = depthAfter inner c + depth := by
  unfold depthAfter
  split
  · omega
  · split
    next hclose =>
      have hinner : inner ≠ 0 := fun hzero => hdip ⟨hclose, hzero⟩
      omega
    · rfl

/-- A text that closes exactly the groups open before it leaves what follows as it is, however many
more groups are open. -/
theorem balancedFrom_append {inner depth : Nat} {a : List Char}
    (ha : balancedFrom inner a = true) (rest : List Char) :
    balancedFrom (inner + depth) (a ++ rest) = balancedFrom depth rest := by
  induction a generalizing inner with
  | nil =>
    have hinner : inner = 0 := by simpa [balancedFrom] using ha
    simp [hinner]
  | cons c a ih =>
    rw [balancedFrom] at ha
    split at ha
    · cases ha
    next hdip =>
      have hdip' : ¬(c = ')' ∧ inner + depth = 0) := by
        rintro ⟨hc, hzero⟩
        exact hdip ⟨hc, by omega⟩
      rw [List.cons_append, balancedFrom, if_neg hdip', depthAfter_add hdip, ih ha]

/-- A text that closes exactly the groups open before it brings the depth down to what is left. -/
theorem depthFrom_of_balancedFrom {inner depth : Nat} {a : List Char}
    (ha : balancedFrom inner a = true) : depthFrom (inner + depth) a = depth := by
  induction a generalizing inner with
  | nil =>
    have hinner : inner = 0 := by simpa [balancedFrom] using ha
    simp [hinner]
  | cons c a ih =>
    rw [balancedFrom] at ha
    split at ha
    · cases ha
    next hdip => rw [depthFrom_cons, depthAfter_add hdip, ih ha]

/-- A balanced text leaves the depth as it is. -/
theorem depthFrom_of_balanced {text : List Char} (h : balanced text = true) (depth : Nat) :
    depthFrom depth text = depth := by
  have hdepth : depthFrom (0 + depth) text = depth := depthFrom_of_balancedFrom h
  rwa [Nat.zero_add] at hdepth

end NifBindings
