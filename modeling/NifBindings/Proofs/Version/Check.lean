import NifBindings.Proofs.Expr.Joined
import NifBindings.Proofs.Expr.Precedence
import NifBindings.Proofs.Expr.Shape
import NifBindings.Proofs.Split
import NifBindings.Proofs.Text.Decimal
import NifBindings.Proofs.Version.Order

/-!
# Version checks

The generated reader checks the version in the header of a file by a text with `<=` between versions
and `&&` between two such comparisons. This text is read with the precedence of its operators and
answered by the lexicographic order of the components. It answers whether the version lies in the
range that the text was written for.
-/

namespace NifBindings

/-- The component of a version that a text is, spaces in front of it skipped. -/
def readComponent? (text : List Char) : Option UInt32 :=
  match Text.readDigits 10 Text.maxNat32 (text.dropWhile (· == ' ')) with
  | .ok value => some (UInt32.ofNat value)
  | .error _ => none

/-- The version that a version value stands for, which has four components. -/
def Version.ofValue? (text : List Char) : Option Version :=
  if text.takeWhile (· != '(') = "FileVersion".toList then do
    let arguments ← unwrapGroup? (text.dropWhile (· != '('))
    match (arguments.splitOn ',').mapM readComponent? with
    | some [major, minor, micro, patch] => some ⟨major, minor, micro, patch⟩
    | _ => none
  else none

/-- The version that an operand stands for in the files of a version. -/
def Version.ofOperand? (header : Version) (text : List Char) : Option Version :=
  if text = "_header_version".toList then some header else ofValue? text

/-- Whether a check holds in the files of a version, if it is made of comparisons of versions. -/
def Grouping.holdsIn? (header : Version) : Grouping → Option Bool
  | .binary (.operand lhs) .le (.operand rhs) => do
    let lower ← header.ofOperand? lhs
    let upper ← header.ofOperand? rhs
    some (decide (lower ≤ upper))
  | .binary lhs .and rhs => do
    let left ← lhs.holdsIn? header
    let right ← rhs.holdsIn? header
    some (left && right)
  | _ => none

/-- What a check answers in the files of a version: the answer of its text, and yes if there is
none. -/
def Answers (header : Version) (answer : Bool) : Option String → Prop
  | none => answer = true
  | some text => ∃ grouping, IsReading text.toList grouping ∧ grouping.holdsIn? header = some answer

/-- A check has at most one answer. -/
theorem Answers.unique {header : Version} {a b : Bool} {check : Option String}
    (ha : Answers header a check) (hb : Answers header b check) : a = b := by
  cases check with
  | none => exact Eq.trans ha (Eq.symm hb)
  | some text =>
    obtain ⟨grouping, hreading, hanswer⟩ := ha
    obtain ⟨grouping', hreading', hanswer'⟩ := hb
    rw [hreading.unique hreading', hanswer', Option.some.injEq] at hanswer
    exact hanswer.symm

namespace Version

/-- A version value names a version by its components. -/
def value (version : Version) : List Char :=
  "FileVersion(".toList ++ version.tuple.toList ++ [')']

/-- The components of a version behind one another, each but the first with a space in front. -/
def componentTexts (version : Version) : List (List Char) :=
  Nat.toDigits 10 version.major.toNat ::
    [version.minor, version.micro, version.patch].map fun component =>
      ' ' :: Nat.toDigits 10 component.toNat

/-- Commas stand between the components of a version. -/
theorem toList_tuple (version : Version) :
    version.tuple.toList = [','].intercalate version.componentTexts := by
  simp [tuple, joined, components, componentTexts, List.intercalate_cons_cons]

/-- Each component of a version is made of digits and perhaps a space. -/
theorem digit_or_space_of_mem {version : Version} {text : List Char} {c : Char}
    (htext : text ∈ version.componentTexts) (hc : c ∈ text) : c.isDigit = true ∨ c = ' ' := by
  have hdigits {n : Nat} (h : c ∈ Nat.toDigits 10 n) : c.isDigit = true :=
    Nat.isDigit_of_mem_toDigits (by decide) (by decide) h
  rcases List.mem_cons.mp htext with rfl | htext
  · exact .inl (hdigits hc)
  · obtain ⟨component, _, rfl⟩ := List.mem_map.mp htext
    rcases List.mem_cons.mp hc with rfl | hc
    · exact .inr rfl
    · exact .inl (hdigits hc)

/-- Between the parentheses of a version value stand digits, commas and spaces. -/
theorem mem_tuple {version : Version} {c : Char} (hc : c ∈ version.tuple.toList) :
    c.isDigit = true ∨ c = ' ' ∨ c = ',' := by
  rw [toList_tuple] at hc
  rcases mem_intercalate hc with rfl | ⟨text, htext, hc⟩
  · exact .inr (.inr rfl)
  · exact (digit_or_space_of_mem htext hc).imp_right .inl

/-- The digits of a component are read as it. -/
theorem readComponent?_toDigits (component : UInt32) :
    readComponent? (Nat.toDigits 10 component.toNat) = some component := by
  have hdrop : (Nat.toDigits 10 component.toNat).dropWhile (· == ' ') =
      Nat.toDigits 10 component.toNat := by
    obtain ⟨c, digits, hdigits⟩ :=
      List.exists_cons_of_ne_nil (Nat.toDigits_ne_nil (n := component.toNat) (b := 10))
    have hdigit : c.isDigit = true :=
      Nat.isDigit_of_mem_toDigits (n := component.toNat) (by decide) (by decide : 10 ≤ 10)
        (by simp [hdigits])
    have hspace : ¬(c == ' ') = true := by
      rw [beq_iff_eq]
      rintro rfl
      exact absurd hdigit (by decide)
    rw [hdigits]
    exact List.dropWhile_cons_of_neg hspace
  have hle : component.toNat ≤ Text.maxNat32 := Nat.le_of_lt_succ component.toNat_lt
  rw [readComponent?, hdrop, Text.readDigits_toDigits hle]
  simp

/-- A space in front of a component is skipped. -/
theorem readComponent?_space (text : List Char) :
    readComponent? (' ' :: text) = readComponent? text := by
  rw [readComponent?, readComponent?, List.dropWhile_cons_of_pos (by rfl)]

/-- A comma with a space behind it separates texts of which all but the first begin with a space. -/
theorem splitOn_intercalate_comma {first : List Char} {rest : List (List Char)}
    (hcomma : ∀ text ∈ first :: rest, ',' ∉ text) :
    (", ".toList.intercalate (first :: rest)).splitOn ',' = first :: rest.map (' ' :: ·) := by
  have hspaced : ", ".toList.intercalate (first :: rest) =
      [','].intercalate (first :: rest.map (' ' :: ·)) := by
    clear hcomma
    induction rest generalizing first with
    | nil => simp
    | cons second rest ih => simp_all [List.intercalate_cons_cons]
  rw [hspaced]
  refine List.splitOn_intercalate ',' ?_ (List.cons_ne_nil _ _)
  intro text htext
  rcases List.mem_cons.mp htext with rfl | htext
  · exact hcomma text List.mem_cons_self
  · obtain ⟨piece, hpiece, rfl⟩ := List.mem_map.mp htext
    simpa using hcomma piece (List.mem_cons_of_mem first hpiece)

/-- The version that four components give, and no other number of them. -/
def ofComponents? : List UInt32 → Option Version
  | [major, minor, micro, patch] => some ⟨major, minor, micro, patch⟩
  | _ => none

/-- What stands between the parentheses of a version value is read component by component. -/
theorem ofValue?_grouped {first : List Char} {rest : List (List Char)}
    (hcomma : ∀ text ∈ first :: rest, ',' ∉ text)
    (hbalanced : balanced (", ".toList.intercalate (first :: rest)) = true) :
    ofValue? ("FileVersion".toList ++ grouped (", ".toList.intercalate (first :: rest))) =
      ((first :: rest).mapM readComponent?).bind ofComponents? := by
  generalize hinside : ", ".toList.intercalate (first :: rest) = inside at hbalanced
  have htake : ("FileVersion".toList ++ grouped inside).takeWhile (· != '(') =
      "FileVersion".toList := rfl
  have hdrop : ("FileVersion".toList ++ grouped inside).dropWhile (· != '(') = grouped inside := rfl
  have hunwrap : unwrapGroup? (grouped inside) = some inside :=
    unwrapGroup?_eq_some_iff.mpr ⟨rfl, hbalanced⟩
  have hread : (first :: rest.map (' ' :: ·)).mapM readComponent? =
      (first :: rest).mapM readComponent? := by
    simp [List.mapM_map, Function.comp_def, readComponent?_space]
  rw [ofValue?, if_pos htake, hdrop, hunwrap, Option.bind_eq_bind, Option.bind_some, ← hinside,
    splitOn_intercalate_comma hcomma, hread]
  cases (first :: rest).mapM readComponent? with
  | none => rfl
  | some components =>
    rw [Option.bind_some]
    unfold ofComponents?
    split
    next h =>
      cases h
      rfl
    next hother =>
      split
      · exact absurd rfl (hother _ _ _ _)
      · rfl

/-- A version is written as the decimal digits of its components with a text between them. -/
theorem toList_joined (between : String) (version : Version) :
    (version.joined between).toList =
      between.toList.intercalate (version.components.map (Nat.toDigits 10)) := by
  simp [joined, String.toList_intercalate, Function.comp_def]

/-- A version value stands for the version that it is written from. -/
theorem ofValue?_value (version : Version) : ofValue? version.value = some version := by
  have htuple : version.tuple.toList =
      ", ".toList.intercalate (version.components.map (Nat.toDigits 10)) := toList_joined _ _
  have hcomma : ∀ text ∈ version.components.map (Nat.toDigits 10), ',' ∉ text := by
    intro text htext hmem
    obtain ⟨component, -, rfl⟩ := List.mem_map.mp htext
    exact absurd (Nat.isDigit_of_mem_toDigits (by decide) (by decide) hmem) (by decide)
  have hbalanced : balanced version.tuple.toList = true := by
    refine balanced_of_not_mem (fun h => ?_) (fun h => ?_)
    · exact absurd (mem_tuple h) (by decide)
    · exact absurd (mem_tuple h) (by decide)
  have hvalue : version.value = "FileVersion".toList ++ grouped version.tuple.toList := rfl
  rw [hvalue, htuple]
  rw [htuple] at hbalanced
  refine (ofValue?_grouped hcomma hbalanced).trans ?_
  simp [readComponent?_toDigits, ofComponents?]

/-- A version value is an operand. -/
theorem isOperand_value (version : Version) : IsOperand version.value := by
  have harguments : ∀ c ∈ version.tuple.toList, isArgumentChar c = true := by
    intro c hc
    rcases mem_tuple hc with hdigit | rfl | rfl
    · simp [isArgumentChar, isNameChar, Char.isAlphanum, hdigit]
    · decide
    · decide
  exact @IsOperand.call "FileVersion".toList _ (by decide) (List.all_eq_true.mp (by decide))
    harguments

/-- The name of the version in the header is an operand. -/
theorem isOperand_header : IsOperand "_header_version".toList :=
  .name (by decide) (List.all_eq_true.mp (by decide))

/-- In the files of a version the name in the header stands for that version. -/
theorem ofOperand?_header (header : Version) :
    header.ofOperand? "_header_version".toList = some header :=
  if_pos rfl

/-- A version value stands for its version in all files. -/
theorem ofOperand?_value (header version : Version) :
    header.ofOperand? version.value = some version := by
  have hne : version.value ≠ "_header_version".toList := fun h => by cases h
  rw [ofOperand?, if_neg hne, ofValue?_value]

end Version

/-- A comparison of two operands. -/
def Phrase.comparison (lhs rhs : List Char) : Phrase :=
  .binary (.operand [] lhs) .le (.operand [] rhs)

/-- The text of a comparison. -/
def comparisonText (lhs rhs : List Char) : List Char :=
  lhs ++ ' ' :: (Operator.le.native.toList ++ ' ' :: rhs)

/-- What follows a comparison belongs to its right operand. -/
theorem comparisonText_append (lhs rhs rest : List Char) :
    comparisonText lhs (rhs ++ rest) = comparisonText lhs rhs ++ rest := by
  simp [comparisonText]

/-- A comparison in front of other text is read as its three tokens. -/
theorem tokenize_comparison {lhs rhs rest : List Char} (hlhs : IsOperand lhs)
    (hrhs : IsOperand rhs) (hrest : EndsOperand rest) :
    tokenize false (comparisonText lhs rhs ++ rest) =
      (tokenize true rest).map ((Phrase.comparison lhs rhs).tokens ++ ·) := by
  have htext : comparisonText lhs rhs ++ rest =
      lhs ++ ' ' :: (Operator.le.native.toList ++ ' ' :: (rhs ++ rest)) := by
    simp [comparisonText]
  rw [htext, tokenize_operand hlhs (endsOperand_space _), tokenize_space, tokenize_operator,
    tokenize_operand hrhs hrest, Option.map_map, Option.map_map]
  rfl

/-- The text of a comparison is read as a comparison. -/
theorem isReading_comparison {lhs rhs : List Char} (hlhs : IsOperand lhs) (hrhs : IsOperand rhs) :
    IsReading (comparisonText lhs rhs) (Phrase.comparison lhs rhs).grouping := by
  refine ⟨Phrase.comparison lhs rhs, ?_, by simp [Phrase.comparison, Phrase.Tight,
    Phrase.FitsBefore, Phrase.FitsBehind], rfl⟩
  have htokens := tokenize_comparison hlhs hrhs endsOperand_nil
  rwa [List.append_nil, tokenize_nil, Option.map_some, List.append_nil] at htokens

/-- Two comparisons joined by `&&` are read as such. -/
theorem isReading_comparisons {a b c d : List Char} (ha : IsOperand a) (hb : IsOperand b)
    (hc : IsOperand c) (hd : IsOperand d) :
    IsReading
      (comparisonText a b ++ ' ' :: (Operator.and.native.toList ++ ' ' :: comparisonText c d))
      (.binary (Phrase.comparison a b).grouping .and (Phrase.comparison c d).grouping) := by
  have htight (lhs rhs : List Char) : (Phrase.comparison lhs rhs).Tight ∧
      (Phrase.comparison lhs rhs).FitsBefore .and ∧ (Phrase.comparison lhs rhs).FitsBehind .and :=
    ⟨⟨trivial, trivial, trivial, trivial⟩, .inl (by decide : 1 < 2), (by decide : 1 < 2)⟩
  refine ⟨.binary (.comparison a b) .and (.comparison c d), ?_,
    ⟨(htight a b).1, (htight c d).1, (htight a b).2.1, (htight c d).2.2⟩, rfl⟩
  have htokens := tokenize_comparison hc hd endsOperand_nil
  rw [List.append_nil, tokenize_nil, Option.map_some, List.append_nil] at htokens
  rw [tokenize_comparison ha hb (endsOperand_space _), tokenize_space, tokenize_operator, htokens]
  rfl

namespace VersionRange

/-- The check against the first version compares it with the name in the header. -/
theorem toList_firstText (first : Version) :
    (firstText first).toList = comparisonText first.value "_header_version".toList := by
  have hbehind : ") <= _header_version".toList =
      ')' :: ' ' :: (Operator.le.native.toList ++ ' ' :: "_header_version".toList) := by
    decide +kernel
  rw [firstText, String.toList_append, String.toList_append, hbehind]
  unfold comparisonText Version.value
  simp only [List.append_assoc]
  rw [List.singleton_append]

/-- The check against the last version compares the name in the header with it. -/
theorem toList_lastText (last : Version) :
    (lastText last).toList = comparisonText "_header_version".toList last.value := by
  have hfront : "_header_version <= FileVersion(".toList =
      comparisonText "_header_version".toList "FileVersion(".toList := by
    decide +kernel
  have hclose : ")".toList = [')'] := rfl
  unfold lastText Version.value
  rw [String.toList_append, String.toList_append, hfront, hclose, List.append_assoc,
    List.append_assoc, comparisonText_append]

/-- The check against the first version answers whether the version of the file is above or at
it. -/
theorem holdsIn?_first (header first : Version) :
    (Phrase.comparison first.value "_header_version".toList).grouping.holdsIn? header =
      some (decide (first ≤ header)) := by
  rw [Phrase.comparison, Phrase.grouping, Phrase.grouping, Phrase.grouping]
  simp only [Grouping.signed, List.foldr_nil, Grouping.holdsIn?, Version.ofOperand?_value,
    Version.ofOperand?_header, Option.bind_eq_bind, Option.bind_some]

/-- The check against the last version answers whether the version of the file is below or at
it. -/
theorem holdsIn?_last (header last : Version) :
    (Phrase.comparison "_header_version".toList last.value).grouping.holdsIn? header =
      some (decide (header ≤ last)) := by
  rw [Phrase.comparison, Phrase.grouping, Phrase.grouping, Phrase.grouping]
  simp only [Grouping.signed, List.foldr_nil, Grouping.holdsIn?, Version.ofOperand?_value,
    Version.ofOperand?_header, Option.bind_eq_bind, Option.bind_some]

/-- The check of a range answers whether the version of the file lies in the range. -/
theorem answers_render? (range : VersionRange) (header : Version) :
    Answers header (range.contains header) range.render? := by
  obtain ⟨first, last⟩ := range
  rw [contains_eq]
  cases first with
  | none =>
    cases last with
    | none => rfl
    | some last =>
      refine ⟨_, ?_, holdsIn?_last header last⟩
      rw [toList_lastText]
      exact isReading_comparison Version.isOperand_header last.isOperand_value
  | some first =>
    cases last with
    | none =>
      refine ⟨_, ?_, (holdsIn?_first header first).trans (by simp)⟩
      rw [toList_firstText]
      exact isReading_comparison first.isOperand_value Version.isOperand_header
    | some last =>
      have htext : (firstText first ++ " && " ++ lastText last).toList =
          comparisonText first.value "_header_version".toList ++
            ' ' :: (Operator.and.native.toList ++
              ' ' :: comparisonText "_header_version".toList last.value) := by
        have hand : " && ".toList = ' ' :: (Operator.and.native.toList ++ [' ']) := rfl
        rw [String.toList_append, String.toList_append, toList_firstText, toList_lastText, hand]
        simp only [List.append_assoc, List.cons_append, List.nil_append]
      have hreading := isReading_comparisons first.isOperand_value Version.isOperand_header
        Version.isOperand_header last.isOperand_value
      rw [← htext] at hreading
      refine ⟨_, hreading, ?_⟩
      rw [Grouping.holdsIn?, holdsIn?_first, holdsIn?_last]
      rfl

end VersionRange

end NifBindings
