import Mathlib.Data.List.TakeWhile
import NifBindings.Proofs.Expr.Balance
import NifBindings.Proofs.Expr.Rejection
import NifBindings.Proofs.Markup.References
import NifBindings.Proofs.Version.Check

/-!
# Written versions

A version with points is written in two ways. A check of versions writes the components that were
read, four numbers; an expression copies the parts of the text. Both write the same exactly for a
text that is a version as it would be written, four numbers without a sign, noughts or capital
letters in front. The copy of any other text stands for no version or for the same one.
-/

namespace NifBindings

namespace Text

/-- Only the decimal digits have a value in base ten. -/
theorem isDigit_of_isSome_digitValue? {c : Char} (h : (digitValue? 10 c).isSome = true) :
    c.isDigit = true := by
  by_cases hrange : '0' ≤ c ∧ c ≤ '9'
  · simp only [Char.isDigit, Bool.and_eq_true, decide_eq_true_eq]
    exact hrange
  · unfold digitValue? at h
    rw [if_neg hrange] at h
    split_ifs at h <;> simp at h

/-- What is read as a decimal number is made of digits and perhaps a plus sign. -/
theorem isDigit_or_eq_of_readNat {bound n : Nat} {text : List Char}
    (h : readNat 10 bound text = .ok n) : ∀ c ∈ text, c.isDigit = true ∨ c = '+' := by
  have hdigits {digits : List Char} (h : readDigits 10 bound digits = .ok n) :
      ∀ c ∈ digits, c.isDigit = true := fun c hc =>
    isDigit_of_isSome_digitValue? (isSome_of_readDigits h c hc)
  intro c hc
  unfold readNat at h
  split at h
  · split at h
    · cases h
    · rcases List.mem_cons.mp hc with rfl | hc
      · exact .inr rfl
      · exact .inl (hdigits h c hc)
  · exact .inl (hdigits h c hc)

/-- A number without a sign is read as its digits. -/
theorem readNat_of_not_mem {base bound : Nat} {text : List Char} (h : '+' ∉ text) :
    readNat base bound text = readDigits base bound text := by
  unfold readNat
  split
  · simp at h
  · rfl

end Text

namespace Version

/-- A text is read as the version that its parts give. -/
theorem parse_eq_ok_iff {text : String} {version : Version} :
    parse text = .ok version ↔
      ∃ numbers, readParts (parts text.toList) = .ok numbers ∧ ofComponents numbers = version := by
  unfold parse
  cases readParts (parts text.toList) <;> simp

variable {text : String} {version : Version}

/-- The parts of a text with points are those between the points, without the capital letters V in
front of the first. -/
theorem parts_of_point {text : List Char} (hpoint : '.' ∈ text) :
    ∃ first rest, text.splitOn '.' = first :: rest ∧
      parts text = first.dropWhile (· == 'V') :: rest := by
  obtain ⟨first, rest, hsplit⟩ := List.exists_cons_of_ne_nil (List.splitOn_ne_nil '.' text)
  refine ⟨first, rest, hsplit, ?_⟩
  rw [parts, separator, if_pos hpoint, hsplit]

/-- A version with points is made of digits, points, plus signs and capital letters V. -/
theorem cases_of_mem_of_parse (hpoint : '.' ∈ text.toList) (hparse : parse text = .ok version)
    {c : Char} (hc : c ∈ text.toList) : c.isDigit = true ∨ c = '.' ∨ c = '+' ∨ c = 'V' := by
  obtain ⟨numbers, hread, -⟩ := parse_eq_ok_iff.mp hparse
  obtain ⟨first, rest, hsplit, hparts⟩ := parts_of_point hpoint
  have hpart {part : List Char} (hmem : part ∈ parts text.toList) (hc : c ∈ part) :
      c.isDigit = true ∨ c = '+' := by
    obtain ⟨n, hn⟩ := exists_ok_of_mapM hread hmem
    exact Text.isDigit_or_eq_of_readNat hn c hc
  rw [hparts] at hpart
  rcases eq_or_exists_mem_splitOn '.' hc with rfl | ⟨part, hmem, hc⟩
  · exact .inr (.inl rfl)
  rw [hsplit] at hmem
  rcases List.mem_cons.mp hmem with rfl | hmem
  · have hsides : c ∈ part.takeWhile (· == 'V') ++ part.dropWhile (· == 'V') := by
      rwa [List.takeWhile_append_dropWhile]
    rcases List.mem_append.mp hsides with hletter | hc
    · exact .inr (.inr (.inr (by simpa using List.mem_takeWhile_imp hletter)))
    · exact (hpart List.mem_cons_self hc).imp_right fun h => .inr (.inl h)
  · exact (hpart (List.mem_cons_of_mem _ hmem) hc).imp_right fun h => .inr (.inl h)

/-- An accepted version has no parentheses, spaces, commas or number signs. -/
theorem not_mem_of_parse (hpoint : '.' ∈ text.toList) (hparse : parse text = .ok version)
    {c : Char} (hc : c ∈ ['(', ')', ' ', ',', '#']) : c ∉ text.toList := by
  intro hmem
  simp only [List.mem_cons, List.not_mem_nil, or_false] at hc
  rcases hc with rfl | rfl | rfl | rfl | rfl <;>
    exact absurd (cases_of_mem_of_parse hpoint hparse hmem) (by decide)

/-- Neither an accepted version nor a part of it has a comma. -/
theorem not_comma_of_parse (hpoint : '.' ∈ text.toList) (hparse : parse text = .ok version) :
    ∀ part ∈ text.toList.splitOn '.', ',' ∉ part := fun _ hpart hcomma =>
  not_mem_of_parse hpoint hparse (by simp) ((isInfix_of_mem_splitOn hpart).subset hcomma)

/-- Texts without commas are told apart when commas with a space behind them separate them. -/
theorem intercalate_comma_inj {a b : List (List Char)} (ha : ∀ text ∈ a, ',' ∉ text)
    (hb : ∀ text ∈ b, ',' ∉ text) (hane : a ≠ []) (hbne : b ≠ [])
    (h : ", ".toList.intercalate a = ", ".toList.intercalate b) : a = b := by
  obtain ⟨first, rest, rfl⟩ := List.exists_cons_of_ne_nil hane
  obtain ⟨first', rest', rfl⟩ := List.exists_cons_of_ne_nil hbne
  have hsplit := congrArg (List.splitOn ',') h
  rw [splitOn_intercalate_comma ha, splitOn_intercalate_comma hb, List.cons.injEq] at hsplit
  rw [hsplit.1, List.map_injective_iff.mpr List.cons_injective hsplit.2]

/-- The digits of a component have no other character. -/
theorem not_mem_digits {c : Char} (hc : c.isDigit = false) :
    ∀ digits ∈ version.components.map (Nat.toDigits 10), c ∉ digits := by
  intro digits hdigits hmem
  obtain ⟨component, -, rfl⟩ := List.mem_map.mp hdigits
  rw [Nat.isDigit_of_mem_toDigits (by decide) (by decide) hmem] at hc
  cases hc

/-- The points of a written version separate its digits. -/
theorem splitOn_dotted (version : Version) :
    version.dotted.toList.splitOn '.' = version.components.map (Nat.toDigits 10) := by
  rw [dotted, toList_joined]
  exact List.splitOn_intercalate '.' (not_mem_digits rfl) (by simp [components])

end Version

/-- A text with a point is copied part by part. -/
theorem toList_fieldName_of_point {text : String} (hpoint : '.' ∈ text.toList) :
    (fieldName text).toList =
      "FileVersion".toList ++ grouped (", ".toList.intercalate (text.toList.splitOn '.')) := by
  have hne : text ≠ "#ARG#" := by
    rintro rfl
    exact absurd hpoint (by decide)
  rw [fieldName, Reference.ofName, if_neg hne, if_pos hpoint, Expr.toList_render_version]

namespace Version

/-- The copy of a text is the value of its version exactly if the text is the version as it is
written with points. -/
theorem fieldName_eq_iff (hpoint : '.' ∈ text.toList) (hparse : parse text = .ok version) :
    fieldName text = "FileVersion(" ++ version.tuple ++ ")" ↔ text = version.dotted := by
  have hvalue : ("FileVersion(" ++ version.tuple ++ ")").toList = "FileVersion".toList ++
      grouped (", ".toList.intercalate (version.components.map (Nat.toDigits 10))) := by
    rw [String.toList_append, String.toList_append, tuple, toList_joined]
    simp [grouped]
  have hcopy : fieldName text = "FileVersion(" ++ version.tuple ++ ")" ↔
      ", ".toList.intercalate (text.toList.splitOn '.') =
        ", ".toList.intercalate (version.components.map (Nat.toDigits 10)) := by
    rw [← String.toList_inj, hvalue, toList_fieldName_of_point hpoint]
    simp [grouped]
  rw [hcopy]
  constructor
  · intro h
    have hparts := intercalate_comma_inj (not_comma_of_parse hpoint hparse) (not_mem_digits rfl)
      (List.splitOn_ne_nil _ _) (by simp [components]) h
    rw [← String.toList_inj, dotted, toList_joined, ← hparts]
    exact (List.intercalate_splitOn '.').symm
  · rintro rfl
    rw [splitOn_dotted]

/-- A component without a space in front is read as its digits. -/
theorem readComponent?_of_not_mem {part : List Char} (hspace : ' ' ∉ part) :
    readComponent? part =
      ((Text.readDigits 10 Text.maxNat32 part).toOption).map UInt32.ofNat := by
  rw [readComponent?, dropWhile_of_not_mem hspace]
  cases Text.readDigits 10 Text.maxNat32 part <;> rfl

/-- Components without signs and spaces are read as the parts of a version are. -/
theorem mapM_readComponent? {pieces : List (List Char)} {numbers : List Nat}
    (hplain : ∀ part ∈ pieces, ' ' ∉ part ∧ '+' ∉ part) (hread : readParts pieces = .ok numbers) :
    pieces.mapM readComponent? = some (numbers.map UInt32.ofNat) := by
  induction pieces generalizing numbers with
  | nil =>
    cases hread
    rfl
  | cons part pieces ih =>
    rw [readParts, List.mapM_cons] at hread
    obtain ⟨n, hn, hread⟩ := bind_eq_ok_iff.mp hread
    obtain ⟨rest, hrest, hread⟩ := bind_eq_ok_iff.mp hread
    cases hread
    obtain ⟨⟨hspace, hplus⟩, hplain⟩ := List.forall_mem_cons.mp hplain
    rw [Text.readNat_of_not_mem hplus] at hn
    rw [List.mapM_cons, readComponent?_of_not_mem hspace, hn, ih hplain hrest]
    rfl

/-- There are no components where a part is not read as one. -/
theorem mapM_readComponent?_eq_none {pieces : List (List Char)} {part : List Char}
    (hpart : part ∈ pieces) (hnone : readComponent? part = none) :
    pieces.mapM readComponent? = none := by
  induction pieces with
  | nil => cases hpart
  | cons first pieces ih =>
    rw [List.mapM_cons]
    rcases List.mem_cons.mp hpart with rfl | hpart
    · rw [hnone]
      rfl
    · rw [ih hpart]
      cases readComponent? first <;> rfl

/-- Four numbers give the version that they are the components of. -/
theorem ofComponents?_map (numbers : List Nat) :
    ofComponents? (numbers.map UInt32.ofNat) =
      if numbers.length = 4 then some (ofComponents numbers) else none := by
  match numbers with
  | [] | [_] | [_, _] | [_, _, _] => rfl
  | [_, _, _, _] => rfl
  | _ :: _ :: _ :: _ :: _ :: _ => simp [ofComponents?]

/-- The copy of an accepted version is read part by part. -/
theorem ofValue?_fieldName (hpoint : '.' ∈ text.toList) (hparse : parse text = .ok version) :
    ofValue? (fieldName text).toList =
      ((text.toList.splitOn '.').mapM readComponent?).bind ofComponents? := by
  have hclean : ∀ part ∈ text.toList.splitOn '.', IsClean part := by
    intro part hpart
    have hnot {c : Char} (hc : c ∈ ['(', ')', ' ', ',', '#']) : c ∉ part := fun hmem =>
      not_mem_of_parse hpoint hparse hc ((isInfix_of_mem_splitOn hpart).subset hmem)
    exact .of_not_mem (hnot (by simp)) (hnot (by simp)) (.of_hash_not_mem (hnot (by simp)))
  have hcomma := not_comma_of_parse hpoint hparse
  have hbalanced := (IsClean.intercalate hclean).balanced
  obtain ⟨first, rest, hsplit⟩ := List.exists_cons_of_ne_nil (List.splitOn_ne_nil '.' text.toList)
  rw [toList_fieldName_of_point hpoint]
  rw [hsplit] at hcomma hbalanced ⊢
  exact ofValue?_grouped hcomma hbalanced

/-- The parts of a version without signs and letters are read as the components of the version. -/
theorem mapM_readComponent?_of_digits (hpoint : '.' ∈ text.toList)
    (hparse : parse text = .ok version)
    (hdigits : ∀ c ∈ text.toList, c = '.' ∨ c.isDigit = true) :
    ∃ numbers, (text.toList.splitOn '.').mapM readComponent? = some (numbers.map UInt32.ofNat) ∧
      numbers.length = text.toList.count '.' + 1 ∧ ofComponents numbers = version := by
  obtain ⟨numbers, hread, hversion⟩ := parse_eq_ok_iff.mp hparse
  obtain ⟨first, rest, hsplit, hparts⟩ := parts_of_point hpoint
  have hinside {part : List Char} (hpart : part ∈ text.toList.splitOn '.') {c : Char}
      (hc : c ∈ part) : c = '.' ∨ c.isDigit = true :=
    hdigits c ((isInfix_of_mem_splitOn hpart).subset hc)
  have hletter : 'V' ∉ first := fun hc =>
    absurd (hinside (by rw [hsplit]; exact List.mem_cons_self) hc) (by decide)
  have hplain : ∀ part ∈ text.toList.splitOn '.', ' ' ∉ part ∧ '+' ∉ part := fun _ hpart =>
    ⟨fun hc => absurd (hinside hpart hc) (by decide),
      fun hc => absurd (hinside hpart hc) (by decide)⟩
  rw [hparts, dropWhile_of_not_mem hletter, ← hsplit] at hread
  have hlength := (forall₂_of_mapM hread).length_eq
  rw [length_splitOn] at hlength
  exact ⟨numbers, mapM_readComponent? hplain hread, hlength.symm, hversion⟩

/-- The parts of a version with a sign or letter are not all read. -/
theorem mapM_readComponent?_of_not_isDigit (hpoint : '.' ∈ text.toList)
    (hparse : parse text = .ok version) {c : Char} (hc : c ∈ text.toList) (hne : c ≠ '.')
    (hdigit : ¬c.isDigit = true) : (text.toList.splitOn '.').mapM readComponent? = none := by
  obtain ⟨part, hpart, hc⟩ := (eq_or_exists_mem_splitOn '.' hc).resolve_left hne
  have hspace : ' ' ∉ part := fun hmem =>
    not_mem_of_parse hpoint hparse (by simp) ((isInfix_of_mem_splitOn hpart).subset hmem)
  refine mapM_readComponent?_eq_none hpart ?_
  rw [readComponent?_of_not_mem hspace]
  cases hread : Text.readDigits 10 Text.maxNat32 part with
  | error fault => rfl
  | ok n =>
    have hvalue := Text.isSome_of_readDigits hread c hc
    exact absurd (Text.isDigit_of_isSome_digitValue? hvalue) hdigit

/-- The copy of an accepted version stands for that version if the text has four parts of digits,
and else for none. -/
theorem ofValue?_fieldName_eq_some_iff (hpoint : '.' ∈ text.toList)
    (hparse : parse text = .ok version) {other : Version} :
    ofValue? (fieldName text).toList = some other ↔
      other = version ∧ text.toList.count '.' = 3 ∧
        ∀ c ∈ text.toList, c = '.' ∨ c.isDigit = true := by
  rw [ofValue?_fieldName hpoint hparse]
  by_cases hdigits : ∀ c ∈ text.toList, c = '.' ∨ c.isDigit = true
  · obtain ⟨numbers, hread, hlength, rfl⟩ := mapM_readComponent?_of_digits hpoint hparse hdigits
    rw [hread, Option.bind_some, ofComponents?_map, hlength]
    split
    next hcount =>
      rw [Option.some.injEq, eq_comm]
      exact (and_iff_left ⟨by omega, hdigits⟩).symm
    next hcount => exact iff_of_false nofun fun h => hcount (by omega)
  · refine iff_of_false (fun h => hdigits fun c hc => ?_) fun h => hdigits h.2.2
    by_contra hnot
    rw [not_or] at hnot
    rw [mapM_readComponent?_of_not_isDigit hpoint hparse hc hnot.1 hnot.2] at h
    cases h

/-- An accepted version holds the spelling of an operator exactly if it has a plus sign. -/
theorem isCompound_iff_of_parse (hpoint : '.' ∈ text.toList) (hparse : parse text = .ok version) :
    isCompound text.toList = true ↔ '+' ∈ text.toList := by
  have hnot {c : Char} (hc : c ∈ ['(', ')', ' ', ',', '#']) := not_mem_of_parse hpoint hparse hc
  -- The plus sign is the only spelling that is made of characters of a version.
  have hspelling : ∀ op ∈ Spelling.all, op.text = "+" ∨
      op.text.toList.any (fun c => !(c.isDigit || c == '.' || c == '+' || c == 'V')) = true := by
    decide +kernel
  rw [isCompound_iff]
  constructor
  · rintro (hopen | hclose | ⟨op, hop⟩)
    · exact absurd hopen (hnot (by simp))
    · exact absurd hclose (hnot (by simp))
    · rcases hspelling op op.mem_all with hplus | hother
      · rw [hplus] at hop
        exact hop.subset (by decide)
      · obtain ⟨c, hc, hother⟩ := List.any_eq_true.mp hother
        have hcases := cases_of_mem_of_parse hpoint hparse (hop.subset hc)
        simp only [Bool.not_eq_true', Bool.or_eq_false_iff, beq_eq_false_iff_ne] at hother
        simp [hother] at hcases
  · intro hplus
    obtain ⟨front, back, htext⟩ := List.append_of_mem hplus
    exact .inr (.inr ⟨.native .add, front, back, by simp [htext, Spelling.text, Operator.native]⟩)

/-- As an expression an accepted version is copied, unless a plus sign makes it compound. -/
theorem generate_of_parse (hpoint : '.' ∈ text.toList) (hparse : parse text = .ok version) :
    Expr.generate text =
      if '+' ∈ text.toList then .error (.expression text) else .ok (fieldName text) := by
  have hshape : matchShape? text.toList = none := by
    rw [Option.eq_none_iff_forall_ne_some]
    intro found hfound
    exact not_mem_of_parse hpoint hparse (by simp) (space_mem_of_matchShape? hfound)
  have hnumeric : ¬Text.isNumeric text = true := by
    intro h
    rw [Text.isNumeric, Bool.and_eq_true, List.all_eq_true] at h
    exact absurd (h.2 '.' hpoint) (by decide)
  rw [Expr.generate, Expr.parse, Expr.parseChars_of_eq_none hshape, String.ofList_toList]
  by_cases hplus : '+' ∈ text.toList
  · rw [if_pos ((isCompound_iff_of_parse hpoint hparse).mpr hplus), if_pos hplus]
    rfl
  · rw [if_neg (fun h => hplus ((isCompound_iff_of_parse hpoint hparse).mp h)), if_neg hplus,
      Expr.leaf, if_neg hnumeric]
    rfl

/-- A version with a point is written in an expression as in a check of versions exactly if its text
is the version as it is written with points. An expression copies its parts, unless a plus sign in
it keeps it from being read, and the copy stands for the version if there are four parts of digits,
and for no version if not. -/
theorem fieldName_eq_value_iff {text : String} {version : Version} (hpoint : '.' ∈ text.toList)
    (hparse : parse text = .ok version) :
    (fieldName text = "FileVersion(" ++ version.tuple ++ ")" ↔ text = version.dotted) ∧
    (VersionRange.firstText version = fieldName text ++ " <= _header_version" ↔
      text = version.dotted) ∧
    (VersionRange.lastText version = "_header_version <= " ++ fieldName text ↔
      text = version.dotted) ∧
    Expr.generate text =
      (if '+' ∈ text.toList then .error (.expression text) else .ok (fieldName text)) ∧
    ∀ other, ofValue? (fieldName text).toList = some other ↔
      other = version ∧ text.toList.count '.' = 3 ∧
        ∀ c ∈ text.toList, c = '.' ∨ c.isDigit = true := by
  have hcopy := fieldName_eq_iff hpoint hparse
  have hfirst : VersionRange.firstText version =
      "FileVersion(" ++ version.tuple ++ ")" ++ " <= _header_version" := by
    have hend : ") <= _header_version" = ")" ++ " <= _header_version" := by decide
    rw [VersionRange.firstText, hend, ← String.append_assoc]
  have hlast : VersionRange.lastText version =
      "_header_version <= " ++ ("FileVersion(" ++ version.tuple ++ ")") := by
    have hstart : "_header_version <= FileVersion(".toList =
        "_header_version <= ".toList ++ "FileVersion(".toList := rfl
    rw [← String.toList_inj]
    unfold VersionRange.lastText
    simp only [String.toList_append, hstart, List.append_assoc]
  refine ⟨hcopy, ?_, ?_, generate_of_parse hpoint hparse, fun other =>
    ofValue?_fieldName_eq_some_iff hpoint hparse⟩
  · rw [hfirst, String.append_left_inj, eq_comm, hcopy]
  · rw [hlast, String.append_right_inj, eq_comm, hcopy]

/-- A version as it is written with points. -/
theorem fieldName_eq_value_iff_fourParts :
    '.' ∈ "20.2.0.7".toList ∧ parse "20.2.0.7" = .ok ⟨20, 2, 0, 7⟩ ∧
      fieldName "20.2.0.7" = "FileVersion(20, 2, 0, 7)" ∧
      Expr.generate "20.2.0.7" = .ok "FileVersion(20, 2, 0, 7)" := by
  have hpoint : '.' ∈ "20.2.0.7".toList := by decide
  have hparse : parse "20.2.0.7" = .ok ⟨20, 2, 0, 7⟩ := by decide +kernel
  obtain ⟨hcopy, -, -, hgenerate, -⟩ := fieldName_eq_value_iff hpoint hparse
  have hname : fieldName "20.2.0.7" = "FileVersion(20, 2, 0, 7)" := hcopy.mpr (by decide +kernel)
  rw [if_neg (by decide), hname] at hgenerate
  exact ⟨hpoint, hparse, hname, hgenerate⟩

/-- A version with two parts is copied with two components and checked with four. -/
theorem fieldName_ne_value_twoParts :
    ¬∀ (text : String) (version : Version), '.' ∈ text.toList → parse text = .ok version →
      fieldName text = "FileVersion(" ++ version.tuple ++ ")" := by
  intro h
  have hparse : parse "10.1" = .ok ⟨10, 1, 0, 0⟩ := by decide +kernel
  exact absurd (h "10.1" ⟨10, 1, 0, 0⟩ (by decide) hparse) (by decide +kernel)

end Version

end NifBindings
