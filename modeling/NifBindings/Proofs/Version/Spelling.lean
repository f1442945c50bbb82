import NifBindings.Proofs.Version.Literal

/-!
# Spellings of a version

The components of a version are written as decimal numerals between points or between underscores,
perhaps behind capital letters V. Exactly these texts are read, those of the same components as the
same version, and any version is compared with them by the lexicographic order of the components. A
component that 32 bits cannot hold is an error.
-/

namespace NifBindings

/-- The front of the first of some lists is that of the joined list. -/
theorem intercalate_append_cons {α : Type} (separator front first : List α)
    (rest : List (List α)) :
    separator.intercalate ((front ++ first) :: rest) =
      front ++ separator.intercalate (first :: rest) := by
  cases rest with
  | nil => simp
  | cons second rest => simp [List.intercalate_cons_cons]

namespace Text

/-- Whether a text consists of decimal digits, at least one, and has a value. -/
structure IsNumeral (number : Nat) (digits : List Char) : Prop where
  ne_nil : digits ≠ []
  isDigit : ∀ c ∈ digits, c.isDigit = true
  value : Nat.ofDigitChars 10 digits 0 = number

/-- Whether a text is a numeral of a number, perhaps behind a plus sign. -/
def IsComponent (number : Nat) (text : List Char) : Prop :=
  IsNumeral number text ∨ ∃ digits, text = '+' :: digits ∧ IsNumeral number digits

/-- The decimal text of a number is a numeral of it. -/
theorem isNumeral_toDigits (number : Nat) : IsNumeral number (Nat.toDigits 10 number) where
  ne_nil := Nat.toDigits_ne_nil
  isDigit _ hc := Nat.isDigit_of_mem_toDigits (by decide) (by decide) hc
  value := Nat.ofDigitChars_ten_toDigits

/-- What is read of a text behind a value is the value of all its characters, which are digits, and
lies within the bound. -/
theorem readDigitsFrom_eq_ok_iff {bound value n : Nat} {text : List Char}
    (hvalue : value ≤ bound) :
    readDigitsFrom 10 bound value text = .ok n ↔
      (∀ c ∈ text, c.isDigit = true) ∧ Nat.ofDigitChars 10 text value = n ∧ n ≤ bound := by
  constructor
  · intro h
    have hdigits : ∀ c ∈ text, c.isDigit = true := fun c hc =>
      isDigit_of_isSome_digitValue? (isSome_of_readDigitsFrom h c hc)
    have hle := readDigitsFrom_le hvalue h
    refine ⟨hdigits, ?_, hle⟩
    induction text generalizing value with
    | nil =>
      rw [readDigitsFrom, Except.ok.injEq] at h
      simpa using h
    | cons c rest ih =>
      obtain ⟨hc, hrest⟩ := List.forall_mem_cons.mp hdigits
      rw [readDigitsFrom, digitValue?_of_isDigit hc] at h
      dsimp only at h
      split at h
      next hnext =>
        rw [Nat.ofDigitChars_cons, Nat.mul_comm]
        exact ih hnext h hrest
      next => cases h
  · rintro ⟨hdigits, rfl, hle⟩
    exact readDigitsFrom_ofDigitChars hdigits hle

/-- What is read of a text without a sign is a number within the bound that it is a numeral of. -/
theorem readDigits_eq_ok_iff {bound n : Nat} {text : List Char} :
    readDigits 10 bound text = .ok n ↔ IsNumeral n text ∧ n ≤ bound := by
  rw [readDigits]
  split
  next hempty =>
    refine iff_of_false (fun h => by cases h) fun h => h.1.ne_nil ?_
    exact List.isEmpty_iff.mp hempty
  next hempty =>
    rw [readDigitsFrom_eq_ok_iff (Nat.zero_le bound)]
    constructor
    · rintro ⟨hdigits, hvalue, hle⟩
      exact ⟨⟨fun h => hempty (List.isEmpty_iff.mpr h), hdigits, hvalue⟩, hle⟩
    · rintro ⟨⟨-, hdigits, hvalue⟩, hle⟩
      exact ⟨hdigits, hvalue, hle⟩

/-- What is read of a text is a number within the bound that it is a numeral of, perhaps behind a
plus sign. -/
theorem readNat_eq_ok_iff {bound n : Nat} {text : List Char} :
    readNat 10 bound text = .ok n ↔ IsComponent n text ∧ n ≤ bound := by
  unfold readNat IsComponent
  split
  next digits =>
    have hsign : ¬IsNumeral n ('+' :: digits) := fun h =>
      absurd (h.isDigit '+' List.mem_cons_self) (by decide)
    simp only [hsign, false_or, List.cons.injEq, true_and, exists_eq_left']
    split
    next hempty =>
      refine iff_of_false (fun h => by cases h) fun h => h.1.ne_nil ?_
      exact List.isEmpty_iff.mp hempty
    next => exact readDigits_eq_ok_iff
  next hplain =>
    rw [readDigits_eq_ok_iff, or_iff_left]
    rintro ⟨digits, rfl, -⟩
    exact hplain digits rfl

namespace IsComponent

/-- A component is made of digits and perhaps a plus sign. -/
theorem isDigit_or_eq {number : Nat} {text : List Char} (h : IsComponent number text) {c : Char}
    (hc : c ∈ text) : c.isDigit = true ∨ c = '+' :=
  isDigit_or_eq_of_readNat (readNat_eq_ok_iff.mpr ⟨h, Nat.le_refl number⟩) c hc

/-- A text is a component of one number. -/
theorem unique {number other : Nat} {text : List Char} (h : IsComponent number text)
    (hother : IsComponent other text) : other = number := by
  have hread := readNat_eq_ok_iff.mpr ⟨h, Nat.le_max_left number other⟩
  have hsame := hread.symm.trans (readNat_eq_ok_iff.mpr ⟨hother, Nat.le_max_right number other⟩)
  exact (Except.ok.inj hsame).symm

end IsComponent

end Text

namespace Version

/-- Whether a text writes some components: as numerals between points or between underscores,
perhaps behind capital letters V. -/
def Spells (numbers : List Nat) (text : String) : Prop :=
  ∃ letters numerals, ∃ mark ∈ ['.', '_'], List.Forall₂ Text.IsComponent numbers numerals ∧
    text.toList = List.replicate letters 'V' ++ [mark].intercalate numerals

/-- The decimal texts of some numbers, joined by points or by underscores, spell them, also behind
capital letters V. -/
theorem spells_joined (numbers : List Nat) (letters : Nat) {between : String}
    (hbetween : between ∈ [".", "_"]) :
    Spells numbers
      (String.ofList (List.replicate letters 'V') ++
        between.intercalate (numbers.map toString)) := by
  have hmark : ∃ mark ∈ ['.', '_'], between.toList = [mark] := by
    simp only [List.mem_cons, List.not_mem_nil, or_false] at hbetween
    rcases hbetween with rfl | rfl
    · exact ⟨'.', by simp, rfl⟩
    · exact ⟨'_', by simp, rfl⟩
  obtain ⟨mark, hmark, hchars⟩ := hmark
  refine ⟨letters, numbers.map (Nat.toDigits 10), mark, hmark, ?_, ?_⟩
  · rw [List.forall₂_map_right_iff, List.forall₂_same]
    exact fun n _ => .inl (Text.isNumeral_toDigits n)
  · simp [String.toList_intercalate, hchars, Function.comp_def]

/-- A character other than a digit and a plus sign stands in no numeral of some components. -/
theorem not_mem_numerals {c : Char} (hdigit : c.isDigit = false) (hplus : c ≠ '+')
    {numbers : List Nat} {numerals : List (List Char)}
    (h : List.Forall₂ Text.IsComponent numbers numerals) : ∀ numeral ∈ numerals, c ∉ numeral := by
  induction h with
  | nil => exact nofun
  | cons hfirst _ ih =>
    refine List.forall_mem_cons.mpr ⟨fun hc => ?_, ih⟩
    rcases hfirst.isDigit_or_eq hc with h | h
    · rw [hdigit] at h
      cases h
    · exact hplus h

/-- The separator is a point or an underscore. -/
theorem separator_mem (text : List Char) : separator text ∈ ['.', '_'] := by
  unfold separator
  split <;> simp

/-- A text with an underscore and no point between its pieces, or with a point, is separated by
it. -/
theorem separator_intercalate {mark : Char} (hmark : mark ∈ ['.', '_']) {first second : List Char}
    {rest : List (List Char)} (hpoint : ∀ piece ∈ first :: second :: rest, '.' ∉ piece) :
    separator ([mark].intercalate (first :: second :: rest)) = mark := by
  simp only [List.mem_cons, List.not_mem_nil, or_false] at hmark
  rcases hmark with rfl | rfl
  · exact if_pos (by simp [List.intercalate_cons_cons])
  · refine if_neg fun h => ?_
    rcases mem_intercalate h with h | ⟨piece, hpiece, h⟩
    · exact absurd h (by decide)
    · exact hpoint piece hpiece h

/-- Joined pieces without points and underscores are split into these pieces. -/
theorem splitOn_separator {mark : Char} (hmark : mark ∈ ['.', '_']) {pieces : List (List Char)}
    (hne : pieces ≠ []) (hpieces : ∀ c ∈ ['.', '_'], ∀ piece ∈ pieces, c ∉ piece) :
    ([mark].intercalate pieces).splitOn (separator ([mark].intercalate pieces)) = pieces := by
  have hsplit {c : Char} (hc : c ∈ ['.', '_']) : ([c].intercalate pieces).splitOn c = pieces :=
    List.splitOn_intercalate c (hpieces c hc) hne
  match pieces with
  | [] => exact absurd rfl hne
  | [piece] => simpa using hsplit (separator_mem piece)
  | first :: second :: rest =>
    rw [separator_intercalate hmark (hpieces '.' (by simp))]
    exact hsplit hmark

/-- The parts of a text that spells components are its numerals. -/
theorem parts_spelled {letters : Nat} {mark : Char} (hmark : mark ∈ ['.', '_'])
    {numbers : List Nat} {numerals : List (List Char)} (hne : numerals ≠ [])
    (h : List.Forall₂ Text.IsComponent numbers numerals) :
    parts (List.replicate letters 'V' ++ [mark].intercalate numerals) = numerals := by
  obtain ⟨first, rest, rfl⟩ := List.exists_cons_of_ne_nil hne
  have hpoint := not_mem_numerals (c := '.') rfl (by decide) h
  have hunder := not_mem_numerals (c := '_') rfl (by decide) h
  have hletter := not_mem_numerals (c := 'V') rfl (by decide) h
  have hpieces : ∀ c ∈ ['.', '_'], ∀ piece ∈ (List.replicate letters 'V' ++ first) :: rest,
      c ∉ piece := by
    rw [List.forall_mem_cons] at hpoint hunder
    simpa [List.mem_replicate, hpoint.1, hunder.1] using And.intro hpoint.2 hunder.2
  have hdrop : (List.replicate letters 'V' ++ first).dropWhile (· == 'V') = first := by
    rw [List.dropWhile_append_of_pos fun c hc => by simp [List.eq_of_mem_replicate hc]]
    exact dropWhile_of_not_mem (hletter first List.mem_cons_self)
  rw [← intercalate_append_cons, parts, splitOn_separator hmark (List.cons_ne_nil _ _) hpieces]
  exact congrArg (· :: rest) hdrop

/-- The parts of a version are read as the numbers of 32 bits that they are numerals of. -/
theorem readParts_eq_ok_iff {pieces : List (List Char)} {numbers : List Nat} :
    readParts pieces = .ok numbers ↔
      List.Forall₂ Text.IsComponent numbers pieces ∧ ∀ n ∈ numbers, n < 2 ^ 32 := by
  induction pieces generalizing numbers with
  | nil =>
    constructor
    · rintro ⟨⟩
      exact ⟨.nil, nofun⟩
    · rintro ⟨h, -⟩
      cases h
      rfl
  | cons piece pieces ih =>
    rw [readParts, List.mapM_cons, bind_eq_ok_iff]
    constructor
    · rintro ⟨n, hn, h⟩
      obtain ⟨rest, hrest, ⟨⟩⟩ := bind_eq_ok_iff.mp h
      obtain ⟨hcomponent, hle⟩ := Text.readNat_eq_ok_iff.mp hn
      obtain ⟨hcomponents, hbound⟩ := ih.mp hrest
      exact ⟨.cons hcomponent hcomponents,
        List.forall_mem_cons.mpr ⟨Nat.lt_succ_of_le hle, hbound⟩⟩
    · rintro ⟨h, hbound⟩
      cases h with
      | @cons n _ rest _ hcomponent hcomponents =>
        obtain ⟨hn, hbound⟩ := List.forall_mem_cons.mp hbound
        refine ⟨n, Text.readNat_eq_ok_iff.mpr ⟨hcomponent, Nat.le_of_lt_succ hn⟩, ?_⟩
        exact bind_eq_ok_iff.mpr ⟨rest, ih.mpr ⟨hcomponents, hbound⟩, rfl⟩

/-- The components of the version that some numbers give are the first four numbers, and zero where
there are fewer. -/
theorem components_ofComponents {numbers : List Nat} (hbound : ∀ n ∈ numbers, n < 2 ^ 32) :
    (ofComponents numbers).components = (numbers ++ [0, 0, 0, 0]).take 4 := by
  have hcomponent (i : Nat) : (UInt32.ofNat (numbers.getD i 0)).toNat = numbers.getD i 0 := by
    refine UInt32.toNat_ofNat_of_lt' ?_
    rw [List.getD_eq_getElem?_getD]
    cases hi : numbers[i]? with
    | none => exact Nat.two_pow_pos 32
    | some n => exact hbound n (List.mem_of_getElem? hi)
  rw [components, ofComponents]
  simp only [hcomponent]
  rcases numbers with _ | ⟨a, _ | ⟨b, _ | ⟨c, _ | ⟨d, rest⟩⟩⟩⟩ <;> rfl

/-- Versions of the same components are the same. -/
theorem eq_of_components_eq {a b : Version} (h : a.components = b.components) : a = b := by
  cases a
  cases b
  simpa [components, UInt32.toNat_inj] using h

/-- A version relates to a written one as the lists of their components do, in lexicographic
order. -/
theorem relationTo_of_parse {text : String} {version : Version} (h : parse text = .ok version)
    (target : Version) :
    (target.relationTo text = .ok .lt ↔ target.components < version.components) ∧
      (target.relationTo text = .ok .eq ↔ target = version) ∧
      (target.relationTo text = .ok .gt ↔ version.components < target.components) := by
  have hrelation : target.relationTo text =
      .ok (compareComponents target.components version.components) := by
    rw [relationTo, h]
    rfl
  simp only [hrelation, Except.ok.injEq]
  rw [compareComponents_eq_lt_iff, compareComponents_eq_gt_iff, compareComponents_eq_eq_iff]
  refine ⟨Iff.rfl, ⟨eq_of_components_eq, ?_⟩, Iff.rfl⟩
  rintro rfl
  rfl

/-- A text spells one list of components. -/
theorem Spells.readParts_iff {numbers : List Nat} {text : String} (h : Spells numbers text)
    (hne : numbers ≠ []) {read : List Nat} :
    readParts (parts text.toList) = .ok read ↔ read = numbers ∧ ∀ n ∈ numbers, n < 2 ^ 32 := by
  obtain ⟨letters, numerals, mark, hmark, hnumerals, htext⟩ := h
  have hnumeralsNe : numerals ≠ [] := by
    rintro rfl
    cases hnumerals
    exact hne rfl
  rw [htext, parts_spelled hmark hnumeralsNe hnumerals, readParts_eq_ok_iff]
  have hunique : Relator.LeftUnique Text.IsComponent := fun _ _ _ ha hb => hb.unique ha
  constructor
  · rintro ⟨hread, hbound⟩
    obtain rfl := List.left_unique_forall₂' hunique hread hnumerals
    exact ⟨rfl, hbound⟩
  · rintro ⟨rfl, hbound⟩
    exact ⟨hnumerals, hbound⟩

/-- A text that is read as a version spells components of 32 bits that give it. -/
theorem exists_spells_of_parse {text : String} {version : Version} (h : parse text = .ok version) :
    ∃ numbers, numbers ≠ [] ∧ Spells numbers text ∧ (∀ n ∈ numbers, n < 2 ^ 32) ∧
      ofComponents numbers = version := by
  obtain ⟨numbers, hread, hversion⟩ := parse_eq_ok_iff.mp h
  obtain ⟨first, rest, hsplit⟩ :=
    List.exists_cons_of_ne_nil (List.splitOn_ne_nil (separator text.toList) text.toList)
  have hparts : parts text.toList = first.dropWhile (· == 'V') :: rest := by rw [parts, hsplit]
  obtain ⟨hnumerals, hbound⟩ := readParts_eq_ok_iff.mp hread
  rw [hparts] at hnumerals
  have hne : numbers ≠ [] := by
    rintro rfl
    cases hnumerals
  obtain ⟨letters, hletters⟩ : ∃ letters, first.takeWhile (· == 'V') = .replicate letters 'V' :=
    ⟨_, List.eq_replicate_of_mem fun c hc => by simpa using List.mem_takeWhile_imp hc⟩
  refine ⟨numbers, hne, ⟨letters, _, separator text.toList, separator_mem _, hnumerals, ?_⟩, hbound,
    hversion⟩
  rw [← intercalate_append_cons, ← hletters, List.takeWhile_append_dropWhile, ← hsplit]
  exact (List.intercalate_splitOn _).symm

/-- A text is read as a version exactly if it spells components of 32 bits that give it. -/
theorem parse_eq_ok_iff_spells {text : String} {version : Version} :
    parse text = .ok version ↔ ∃ numbers, numbers ≠ [] ∧ Spells numbers text ∧
      (∀ n ∈ numbers, n < 2 ^ 32) ∧ ofComponents numbers = version := by
  refine ⟨exists_spells_of_parse, ?_⟩
  rintro ⟨numbers, hne, hspells, hbound, hversion⟩
  exact parse_eq_ok_iff.mpr ⟨numbers, (hspells.readParts_iff hne).mpr ⟨rfl, hbound⟩, hversion⟩

/-- A version is read from its components with points. -/
theorem parse_dotted (version : Version) : parse version.dotted = .ok version := by
  have hbound : ∀ n ∈ version.components, n < 2 ^ 32 := by
    rw [components]
    simp only [List.forall_mem_cons]
    exact ⟨version.major.toNat_lt, version.minor.toNat_lt, version.micro.toNat_lt,
      version.patch.toNat_lt, List.forall_mem_nil _⟩
  refine parse_eq_ok_iff_spells.mpr ⟨version.components, List.cons_ne_nil _ _, ?_, hbound, ?_⟩
  · have hspells := @spells_joined version.components 0 "." (by simp)
    simpa [dotted, joined] using hspells
  · refine eq_of_components_eq ?_
    rw [components_ofComponents hbound]
    rfl

/-- The texts that spell some components are one version: the components joined by points or by
underscores, also behind capital letters V, are such texts. If the components have 32 bits, each of
the texts is read as the version of the first four of them, with zeros for those that are missing,
and any version is lower than it, the same or higher exactly as it is in the lexicographic order of
the components. If a component is greater, each of the texts is an error. A version as it is written
is read as itself. -/
theorem spellings_agree {numbers : List Nat} (hne : numbers ≠ []) :
    (∀ letters, ∀ between ∈ [".", "_"], Spells numbers
      (String.ofList (List.replicate letters 'V') ++
        between.intercalate (numbers.map toString))) ∧
    ((∀ n ∈ numbers, n < 2 ^ 32) → ∃ version : Version,
      version.components = (numbers ++ [0, 0, 0, 0]).take 4 ∧
      ∀ text, Spells numbers text → parse text = .ok version ∧ ∀ target : Version,
        (target.relationTo text = .ok .lt ↔ target.components < version.components) ∧
        (target.relationTo text = .ok .eq ↔ target = version) ∧
        (target.relationTo text = .ok .gt ↔ version.components < target.components)) ∧
    ((∃ n ∈ numbers, 2 ^ 32 ≤ n) → ∀ text, Spells numbers text →
      parse text = .error (.version text) ∧
        ∀ target : Version, target.relationTo text = .error (.version text)) ∧
    ∀ version : Version, parse version.dotted = .ok version := by
  refine ⟨fun letters between => spells_joined numbers letters, fun hbound => ?_, ?_, parse_dotted⟩
  · refine ⟨ofComponents numbers, components_ofComponents hbound, fun text hspells => ?_⟩
    have hparse := parse_eq_ok_iff_spells.mpr ⟨numbers, hne, hspells, hbound, rfl⟩
    exact ⟨hparse, relationTo_of_parse hparse⟩
  · rintro ⟨n, hn, hlarge⟩ text hspells
    have hparse : parse text = .error (.version text) := by
      rw [parse]
      cases hread : readParts (parts text.toList) with
      | error fault => rfl
      | ok read =>
        obtain ⟨-, hbound⟩ := (hspells.readParts_iff hne).mp hread
        exact absurd (hbound n hn) (Nat.not_lt.mpr hlarge)
    refine ⟨hparse, fun target => ?_⟩
    rw [relationTo, hparse]
    rfl

/-- Four components behind two letters with underscores between them. -/
theorem spellings_agree_fourComponents :
    [20, 2, 0, 7] ≠ [] ∧ (∀ n ∈ [20, 2, 0, 7], n < 2 ^ 32) ∧
      Spells [20, 2, 0, 7] "VV20_2_0_7" ∧ Spells [20, 2, 0, 7] "20.2.0.7" ∧
      parse "VV20_2_0_7" = parse "20.2.0.7" ∧
      (⟨20, 2, 0, 6⟩ : Version).relationTo "VV20_2_0_7" = .ok .lt := by
  have hne : [20, 2, 0, 7] ≠ [] := by decide
  have hbound : ∀ n ∈ [20, 2, 0, 7], n < 2 ^ 32 := by decide
  obtain ⟨hspells, hread, -, -⟩ := spellings_agree hne
  have hletters : Spells [20, 2, 0, 7] "VV20_2_0_7" := hspells 2 "_" (by decide)
  have hpoints : Spells [20, 2, 0, 7] "20.2.0.7" := hspells 0 "." (by decide)
  obtain ⟨version, hversion, hall⟩ := hread hbound
  obtain ⟨hparse, hrelation⟩ := hall _ hletters
  refine ⟨hne, hbound, hletters, hpoints, hparse.trans (hall _ hpoints).1.symm, ?_⟩
  rw [(hrelation _).1, hversion]
  decide

end Version

end NifBindings
