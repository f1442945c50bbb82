import NifBindings.Proofs.Expr.Balance
import NifBindings.Proofs.Expr.Enclosed
import NifBindings.Proofs.Expr.Grouping

/-!
# Signs in front of groups

Unary operators in front of a text that begins with a parenthesis belong to the whole of it. They
are put in front of what is generated for the text, which stands in parentheses there, and so apply
to all of it. Only of a bitwise or are they lost together with its right operand.
-/

namespace NifBindings

/-- Unary operators as they are written. -/
def signsText (signs : List UnaryOperator) : String :=
  String.ofList (signs.map UnaryOperator.char)

/-- The texts of signs in front of the whole of another text: of this one in parentheses, which may
be left out around one that is a group already or a single operand. -/
inductive SignedText (signs : List UnaryOperator) (inner : List Char) : List Char → Prop
  | grouped : SignedText signs inner (signs.map UnaryOperator.char ++ grouped inner)
  | bare (hsingle : (∃ inside, unwrapGroup? inner = some inside) ∨ IsOperand inner) :
      SignedText signs inner (signs.map UnaryOperator.char ++ inner)

/-- A text is longer than what its signs stand in front of. -/
theorem SignedText.length_lt {signs : List UnaryOperator} {inner text : List Char}
    (h : SignedText signs inner text) (hsigns : signs ≠ []) : inner.length < text.length := by
  have hpos : 0 < signs.length := List.length_pos_iff.mpr hsigns
  cases h with
  | grouped =>
    simp only [NifBindings.grouped, List.length_append, List.length_map, List.length_cons]
    omega
  | bare =>
    simp only [List.length_append, List.length_map]
    omega

/-- Unless a text is bare, the signs in front of it are those that are taken off it. -/
theorem unary_eq_of_matchShape? {text : List Char} {found : ShapeMatch}
    (hfound : matchShape? text = some found) (hshape : found.shape ≠ .bare) :
    found.unary = (takeUnary text).1 := by
  obtain ⟨-, ⟨split, -, rfl⟩ | ⟨-, split, -, rfl⟩ | ⟨-, -, split, -, rfl⟩⟩ :=
    matchShape?_eq_some_iff.mp hfound
  · rfl
  · rfl
  · exact absurd rfl hshape

/-- Signs in front of a text that is taken apart without any become its unary operators. -/
theorem matchShape?_signs {text : List Char} {found : ShapeMatch}
    (hfound : matchShape? text = some found) (hshape : found.shape ≠ .bare)
    (hunary : found.unary = []) (signs : List UnaryOperator) :
    matchShape? (signs.map UnaryOperator.char ++ text) = some { found with unary := signs } := by
  have hrest : takeUnary text = ([], text) := by
    have hnone := (unary_eq_of_matchShape? hfound hshape).symm.trans hunary
    have hwhole := takeUnary_append text
    rw [hnone, List.map_nil, List.nil_append] at hwhole
    exact Prod.ext hnone hwhole
  have hsigned : takeUnary (signs.map UnaryOperator.char ++ text) = (signs, text) := by
    rw [takeUnary_map_append, hrest, List.append_nil]
  rw [matchShape?_eq_some_iff, hrest] at hfound
  rw [matchShape?_eq_some_iff, hsigned, balanced_append (balanced_signs signs)]
  obtain ⟨hbalanced, hfound⟩ := hfound
  refine ⟨hbalanced, ?_⟩
  rcases hfound with ⟨split, hsplit, rfl⟩ | ⟨hgrouped, split, hsplit, rfl⟩ | ⟨-, -, split, -, rfl⟩
  · exact .inl ⟨split, hsplit, rfl⟩
  · exact .inr (.inl ⟨hgrouped, split, hsplit, rfl⟩)
  · exact absurd rfl hshape

/-- Signs in front of a balanced text in parentheses are read as applied to its reading. -/
theorem isReading_signs_iff {signs : List UnaryOperator} {text : List Char} {grouping : Grouping}
    (htext : balanced text = true) :
    IsReading (signs.map UnaryOperator.char ++ grouped text) grouping ↔
      ∃ inner, IsReading text inner ∧ grouping = .signed signs inner := by
  have htokens : tokenize false (signs.map UnaryOperator.char ++ grouped text) =
      (tokenize false text).map fun inner =>
        signs.map .sign ++ .opening :: (inner ++ [.closing]) := by
    rw [grouped, tokenize_signs, tokenize_open, tokenize_append_close htext]
    cases tokenize false text <;> simp
  constructor
  · rintro ⟨phrase, hphrase, htight, rfl⟩
    rw [htokens] at hphrase
    obtain ⟨front, hfront, hphrase⟩ := Option.map_eq_some_iff.mp hphrase
    have hspine : phrase.spine = [] := by
      rw [← Phrase.outside_tokens, ← hphrase, outside_signs, outside]
      exact Enclosable.of_tokenize htext hfront []
    obtain ⟨inner, rfl⟩ := Phrase.eq_group_of_tokens signs hspine
      (by rw [List.append_nil]; exact hphrase.symm)
    have hinner : inner.tokens = front := by
      have hgroup := List.append_cancel_left hphrase
      exact List.append_cancel_right (List.cons.inj hgroup).2.symm
    exact ⟨inner.grouping, ⟨inner, hinner ▸ hfront, htight, rfl⟩, rfl⟩
  · rintro ⟨_, ⟨phrase, hphrase, htight, rfl⟩, rfl⟩
    exact ⟨.group signs phrase, by rw [htokens, hphrase]; rfl, htight, rfl⟩

/-- No reading is signs applied to itself. -/
theorem Grouping.signed_ne {signs : List UnaryOperator} (hsigns : signs ≠ []) (inner : Grouping) :
    Grouping.signed signs inner ≠ inner := by
  have hsize (signs : List UnaryOperator) :
      sizeOf inner + signs.length ≤ sizeOf (Grouping.signed signs inner) := by
    induction signs with
    | nil => exact Nat.le_refl _
    | cons sign signs ih =>
      have hunary : sizeOf (Grouping.signed (sign :: signs) inner) =
          1 + sizeOf sign + sizeOf (Grouping.signed signs inner) := rfl
      rw [hunary, List.length_cons]
      omega
  intro hsame
  have hle := hsize signs
  have hpos : 0 < signs.length := List.length_pos_iff.mpr hsigns
  rw [hsame] at hle
  omega

namespace Expr

/-- Signs in front of a text that is taken apart without any stand in front of its expression,
unless this is what is left of a bitwise or. -/
theorem parseChars_signs {text : List Char} {found : ShapeMatch}
    (hfound : matchShape? text = some found) (hshape : found.shape ≠ .bare)
    (hunary : found.unary = []) {signs : List UnaryOperator} (hsigns : signs ≠ []) :
    parseChars (signs.map UnaryOperator.char ++ text) =
      (parseChars text).map fun expr =>
        if found.op.operator = .bitOr then expr else .unary signs expr := by
  rw [parseChars_of_matchShape? (matchShape?_signs hfound hshape hunary signs),
    parseChars_of_matchShape? hfound, hunary]
  cases hlhs : parseChars found.lhs with
  | error error => rfl
  | ok lhs =>
    by_cases hop : found.op.operator = .bitOr
    · simp [hop, Bind.bind, Except.bind, Except.map]
    · cases hrhs : parseChars found.rhs with
      | error error => simp [hop, Bind.bind, Except.bind, Except.map]
      | ok rhs => simp [hop, withUnary, Bind.bind, Except.bind, Except.map]

/-- What is generated for a text behind signs is what is generated for the text, in parentheses
behind the signs. -/
theorem generate_signs {text : String} {found : ShapeMatch}
    (hfound : matchShape? text.toList = some found) (hshape : found.shape ≠ .bare)
    (hunary : found.unary = []) {signs : List UnaryOperator} (hsigns : signs ≠ []) :
    generate (signsText signs ++ text) =
      (generate text).map fun whole =>
        if found.op.operator = .bitOr then whole else signsText signs ++ "(" ++ whole ++ ")" := by
  have htext : (signsText signs ++ text).toList = signs.map UnaryOperator.char ++ text.toList := by
    simp [signsText]
  rw [generate, generate, parse, parse, htext, parseChars_signs hfound hshape hunary hsigns]
  cases parseChars text.toList with
  | error error => rfl
  | ok expr =>
    by_cases hop : found.op.operator = .bitOr
    · simp [hop, Except.map]
    · simp [hop, Except.map, render, signsText]

/-- Signs in front of a text that is taken apart without any change nothing about whether it can be
read. What is generated then puts them in front of the whole of what is generated for the text, and
is read as they are applied to its reading, exactly if the text is no bitwise or. Of a bitwise or
they are lost. -/
theorem generate_signs_iff {signs : List UnaryOperator} {text : String} {found : ShapeMatch}
    (hsigns : signs ≠ []) (hfound : matchShape? text.toList = some found)
    (hshape : found.shape ≠ .bare) (hunary : found.unary = []) :
    ((∃ generated, generate (signsText signs ++ text) = .ok generated) ↔
      ∃ whole, generate text = .ok whole) ∧
    ∀ whole generated, generate text = .ok whole →
      generate (signsText signs ++ text) = .ok generated →
        (SignedText signs whole.toList generated.toList ↔ found.op.operator ≠ .bitOr) ∧
        (found.op.operator = .bitOr → generated = whole) ∧
        ∀ inner, IsReading whole.toList inner →
          (IsReading generated.toList (.signed signs inner) ↔ found.op.operator ≠ .bitOr) := by
  have hgenerate := generate_signs hfound hshape hunary hsigns
  refine ⟨?_, fun whole generated hwhole hgenerated => ?_⟩
  · rw [hgenerate]
    cases generate text <;> simp [Except.map]
  · rw [hgenerate, hwhole] at hgenerated
    have hbalanced := (isClean_of_generate hwhole).balanced
    by_cases hop : found.op.operator = .bitOr
    · have hsame : whole = generated := by simpa [Except.map, hop] using hgenerated
      subst hsame
      have hnot : ¬SignedText signs whole.toList whole.toList := fun h =>
        Nat.lt_irrefl _ (h.length_lt hsigns)
      refine ⟨by simp [hop, hnot], fun _ => rfl, fun inner hinner => ?_⟩
      have hunread : ¬IsReading whole.toList (.signed signs inner) := fun h =>
        Grouping.signed_ne hsigns inner (h.unique hinner)
      simp [hop, hunread]
    · have hsame : signsText signs ++ "(" ++ whole ++ ")" = generated := by
        simpa [Except.map, hop] using hgenerated
      have htext : generated.toList = signs.map UnaryOperator.char ++ grouped whole.toList := by
        simp [← hsame, signsText, grouped]
      rw [htext]
      refine ⟨by simp [hop, SignedText.grouped], fun h => absurd h hop, fun inner hinner => ?_⟩
      have hreading : IsReading (signs.map UnaryOperator.char ++ grouped whole.toList)
          (.signed signs inner) := (isReading_signs_iff hbalanced).mpr ⟨inner, hinner, rfl⟩
      simp [hop, hreading]

/-- A negated comparison in parentheses is negated as a whole. -/
theorem generate_signs_iff_comparison :
    ∃ whole generated inner, generate "(Num Blocks #GT# 0)" = .ok whole ∧
      generate "!(Num Blocks #GT# 0)" = .ok generated ∧
      SignedText [.not] whole.toList generated.toList ∧ IsReading whole.toList inner ∧
      IsReading generated.toList (.signed [.not] inner) := by
  have hfound : matchShape? "(Num Blocks #GT# 0)".toList =
      some ⟨.parenthesized, [], "Num Blocks".toList, .symbolic .gt, "0".toList⟩ := by
    decide +kernel
  let expr : Expr := .binary (.reference (.field "num_blocks")) .gt (.numeral "0")
  obtain ⟨_, hparse, rfl⟩ : ∃ found, parse "(Num Blocks #GT# 0)" = .ok found ∧ found = expr :=
    ⟨_, parseChars_eq_ok_iff.mpr
      (.node hfound (by decide) (.leaf (by decide +kernel)) (.leaf (by decide +kernel))),
      by decide +kernel⟩
  have hwhole : generate "(Num Blocks #GT# 0)" = .ok expr.render :=
    generate_eq_ok_iff.mpr ⟨expr, hparse, rfl⟩
  have hreading : IsReading expr.render.toList expr.grouping := by
    refine (isReading_grouping_iff expr).mpr ⟨?_, ?_⟩
    · unfold HasReadableOperands
      decide +kernel
    · decide +kernel
  obtain ⟨hreadable, hsigned⟩ :=
    generate_signs_iff (by simp : [UnaryOperator.not] ≠ []) hfound (by simp) rfl
  obtain ⟨generated, hgenerated⟩ := hreadable.mpr ⟨_, hwhole⟩
  obtain ⟨hwritten, -, hread⟩ := hsigned _ _ hwhole hgenerated
  exact ⟨_, generated, expr.grouping, hwhole, hgenerated, hwritten.mpr (by decide), hreading,
    (hread _ hreading).mpr (by decide)⟩

/-- A negated bitwise or generates the same as without its negation. -/
theorem not_signedText_vendorField :
    ∃ found whole generated, matchShape? "(Has UV | BS Num UV Sets)".toList = some found ∧
      found.shape = .parenthesized ∧ found.unary = [] ∧
      generate "(Has UV | BS Num UV Sets)" = .ok whole ∧
      generate "!(Has UV | BS Num UV Sets)" = .ok generated ∧ whole = "has_uv" ∧
      generated = "has_uv" ∧ ¬SignedText [.not] whole.toList generated.toList ∧
      IsReading whole.toList (.operand "has_uv".toList) ∧
      ¬IsReading generated.toList (.signed [.not] (.operand "has_uv".toList)) := by
  have hfound : matchShape? "(Has UV | BS Num UV Sets)".toList =
      some ⟨.parenthesized, [], "Has UV".toList, .native .bitOr, "BS Num UV Sets".toList⟩ := by
    decide +kernel
  obtain ⟨_, hparse, rfl⟩ : ∃ found, parse "(Has UV | BS Num UV Sets)" = .ok found ∧
      found = .reference (.field "has_uv") :=
    ⟨_, parseChars_eq_ok_iff.mpr (.left hfound (by decide) (.leaf (by decide +kernel))),
      by decide +kernel⟩
  have hwhole : generate "(Has UV | BS Num UV Sets)" = .ok "has_uv" :=
    generate_eq_ok_iff.mpr ⟨_, hparse, rfl⟩
  have hgenerated : generate "!(Has UV | BS Num UV Sets)" = .ok "has_uv" := by
    have hsigned := generate_signs hfound (by simp) rfl (by simp : [UnaryOperator.not] ≠ [])
    rw [hwhole] at hsigned
    exact hsigned
  have hreading : IsReading "has_uv".toList (.operand "has_uv".toList) :=
    ⟨.operand [] "has_uv".toList, by decide +kernel, trivial, rfl⟩
  refine ⟨_, _, _, hfound, rfl, rfl, hwhole, hgenerated, rfl, rfl, fun h => ?_, hreading,
    fun h => ?_⟩
  · exact Nat.lt_irrefl _ (h.length_lt (by simp))
  · cases h.unique hreading

end Expr

end NifBindings
