import Mathlib.Tactic.IntervalCases
import NifBindings.Proofs.Basic
import NifBindings.Proofs.Markup.Grammar

/-!
# Resolving references

The digits of a number in any base up to sixteen are read as that number, behind any noughts and
with letters of either case. So a reference is resolved to the character that it refers to, and a
text to the characters that it writes.
-/

namespace NifBindings

namespace Text

variable {base bound value : Nat} {digits : List Char}

/-- The digit for a number has this number as its value. -/
theorem digitValue?_digitChar {d : Nat} (hbase : base ≤ 16) (hd : d < base) :
    digitValue? base (Nat.digitChar d) = some d := by
  have hsixteen : ∀ d : Fin 16, digitValue? 16 (Nat.digitChar d) = some d.val := by decide
  have hlarge := hsixteen ⟨d, by omega⟩
  unfold digitValue? at hlarge ⊢
  exact Option.filter_eq_some_iff.mpr
    ⟨(Option.filter_eq_some_iff.mp hlarge).1, decide_eq_true hd⟩

/-- A digit is a letter or a decimal digit. -/
theorem isAlphanum_of_digitValue? {c : Char} (h : (digitValue? base c).isSome = true) :
    c.isAlphanum = true := by
  obtain ⟨value, hvalue⟩ := Option.isSome_iff_exists.mp h
  have hsome := (Option.filter_eq_some_iff.mp hvalue).1
  have hrange : ('0' ≤ c ∧ c ≤ '9') ∨ ('a' ≤ c ∧ c ≤ 'f') ∨ ('A' ≤ c ∧ c ≤ 'F') := by
    by_contra hnone
    rw [not_or, not_or] at hnone
    rw [if_neg hnone.1, if_neg hnone.2.1, if_neg hnone.2.2] at hsome
    cases hsome
  have hranges : c.isAlphanum = (decide ('A'.val ≤ c.val ∧ c.val ≤ 'Z'.val) ||
      (decide ('a'.val ≤ c.val) && decide (c.val ≤ 'z'.val)) ||
        (decide ('0'.val ≤ c.val) && decide (c.val ≤ '9'.val))) := rfl
  rw [hranges]
  simp only [Bool.or_eq_true, Bool.and_eq_true, decide_eq_true_eq]
  simp only [Char.le_def, UInt32.le_iff_toNat_le] at hrange ⊢
  have hf : 'f'.val.toNat ≤ 'z'.val.toNat := by decide
  have hF : 'F'.val.toNat ≤ 'Z'.val.toNat := by decide
  rcases hrange with h | h | h
  · exact .inr h
  · exact .inl (.inr ⟨h.1, h.2.trans hf⟩)
  · exact .inl (.inl ⟨h.1, h.2.trans hF⟩)

/-- A letter counts the same in either case. -/
theorem digitValue?_toLower (c : Char) : digitValue? base c.toLower = digitValue? base c := by
  by_cases hupper : c.val ≥ 'A'.val ∧ c.val ≤ 'Z'.val
  · have hlow : 65 ≤ c.toNat := UInt32.le_iff_toNat_le.mp hupper.1
    have hhigh : c.toNat ≤ 90 := UInt32.le_iff_toNat_le.mp hupper.2
    rw [← Char.ofNat_toNat c]
    generalize c.toNat = code at hlow hhigh
    interval_cases code <;> rfl
  · have hsame : c.toLower = c := dif_neg hupper
    rw [hsame]

/-- Digits are read one behind the other. -/
theorem readDigitsFrom_append (front back : List Char) :
    readDigitsFrom base bound value (front ++ back) =
      readDigitsFrom base bound value front >>= fun value =>
        readDigitsFrom base bound value back := by
  induction front generalizing value with
  | nil => rfl
  | cons c front ih =>
    rw [List.cons_append, readDigitsFrom, readDigitsFrom]
    split
    · rfl
    · split
      · exact ih
      · rfl

/-- Noughts in front of other digits change nothing. -/
theorem readDigitsFrom_replicate (hbase : 0 < base) (hle : base ≤ 16) (noughts : Nat)
    (digits : List Char) :
    readDigitsFrom base bound 0 (List.replicate noughts '0' ++ digits) =
      readDigitsFrom base bound 0 digits := by
  induction noughts with
  | zero => rfl
  | succ noughts ih =>
    have hnought : digitValue? base '0' = some 0 := digitValue?_digitChar hle hbase
    rw [List.replicate_succ, List.cons_append, readDigitsFrom, hnought]
    simpa using ih

/-- The digits of a number within the bound are read as that number. -/
theorem readDigitsFrom_toDigits (hbase : 1 < base) (hle : base ≤ 16) {n : Nat} (hn : n ≤ bound) :
    readDigitsFrom base bound 0 (Nat.toDigits base n) = .ok n := by
  have hlast {front d : Nat} (hd : d < base) (hfront : front * base + d ≤ bound) :
      readDigitsFrom base bound front [Nat.digitChar d] = .ok (front * base + d) := by
    rw [readDigitsFrom, digitValue?_digitChar hle hd]
    simp [hfront, readDigitsFrom]
  induction n using Nat.strongRecOn with
  | _ n ih =>
    by_cases hsmall : n < base
    · rw [Nat.toDigits_of_lt_base hsmall]
      simpa using hlast hsmall (by omega : 0 * base + n ≤ bound)
    · have hparts : n / base * base + n % base = n := Nat.div_add_mod' n base
      have hfront := ih (n / base) (Nat.div_lt_self (by omega) hbase)
        ((Nat.div_le_self n base).trans hn)
      have hback := hlast (Nat.mod_lt n (by omega)) (hparts.trans_le hn)
      rw [hparts] at hback
      rw [Nat.toDigits_of_base_le hbase (by omega), readDigitsFrom_append]
      exact bind_eq_ok_iff.mpr ⟨n / base, hfront, hback⟩

/-- Only digits are read as a number. -/
theorem isSome_of_readDigitsFrom {n : Nat} (h : readDigitsFrom base bound value digits = .ok n) :
    ∀ c ∈ digits, (digitValue? base c).isSome = true := by
  induction digits generalizing value with
  | nil => simp
  | cons c digits ih =>
    rw [readDigitsFrom] at h
    split at h
    · cases h
    next d hd =>
      split at h
      · exact List.forall_mem_cons.mpr ⟨by rw [hd]; rfl, ih h⟩
      · cases h

/-- Letters of either case are read as the same number. -/
theorem readDigitsFrom_map_toLower (digits : List Char) :
    readDigitsFrom base bound value (digits.map Char.toLower) =
      readDigitsFrom base bound value digits := by
  induction digits generalizing value with
  | nil => rfl
  | cons c digits ih =>
    rw [List.map_cons, readDigitsFrom, readDigitsFrom, digitValue?_toLower]
    simp only [ih]

/-- A number is read behind any noughts. -/
theorem readDigits_replicate_toDigits (hbase : 1 < base) (hle : base ≤ 16) (noughts : Nat) {n : Nat}
    (hn : n ≤ bound) :
    readDigits base bound (List.replicate noughts '0' ++ Nat.toDigits base n) = .ok n := by
  have hne : (List.replicate noughts '0' ++ Nat.toDigits base n).isEmpty = false := by simp
  rw [readDigits, hne, readDigitsFrom_replicate (by omega) hle]
  exact readDigitsFrom_toDigits hbase hle hn

/-- A number is read with letters of either case. -/
theorem readDigits_of_map_toLower {n : Nat}
    (h : readDigits base bound (digits.map Char.toLower) = .ok n) :
    readDigits base bound digits = .ok n := by
  unfold readDigits at h ⊢
  rwa [List.isEmpty_map, readDigitsFrom_map_toLower] at h

/-- Only digits are read as a number without a sign. -/
theorem isSome_of_readDigits {n : Nat} (h : readDigits base bound digits = .ok n) :
    ∀ c ∈ digits, (digitValue? base c).isSome = true := by
  unfold readDigits at h
  split at h
  · cases h
  · exact isSome_of_readDigitsFrom h

end Text

namespace Markup

variable {c : Char} {name digits : List Char}

/-- Digits without a sign are read as the number of a character. -/
theorem readCode_of_readDigits {base code : Nat}
    (h : Text.readDigits base Text.maxNat32 digits = .ok code) :
    readCode base digits = .ok code := by
  have hdigits := Text.isSome_of_readDigits h
  unfold readCode
  split
  · exact nomatch hdigits '+' List.mem_cons_self
  · exact nomatch hdigits '-' List.mem_cons_self
  · rw [h]
    rfl

/-- A character has its own code point. -/
theorem characterOf_toNat (hc : c.toNat ≠ 0) : characterOf c.toNat = .ok c := by
  have hvalid : c.toNat.isValidChar := c.valid
  rw [characterOf, if_neg hc, if_pos hvalid, Char.ofNat_toNat]

/-- The code point of a character has at most 32 bits. -/
theorem toNat_le_maxNat32 (c : Char) : c.toNat ≤ Text.maxNat32 := by
  have hlt := c.val.toNat_lt
  have hmax : Text.maxNat32 = 2 ^ 32 - 1 := rfl
  have hval : c.toNat = c.val.toNat := rfl
  omega

/-- The digits of a number in a reference are those of the character that it refers to. -/
theorem RefersTo.cases_readDigits (h : RefersTo c name) :
    (name, c) ∈ namedReferences ∨
      (c.toNat ≠ 0 ∧ ∃ digits, name = '#' :: digits ∧
        Text.readDigits 10 Text.maxNat32 digits = .ok c.toNat) ∨
      (c.toNat ≠ 0 ∧ ∃ digits, name = '#' :: 'x' :: digits ∧
        Text.readDigits 16 Text.maxNat32 digits = .ok c.toNat) := by
  cases h with
  | named hname => exact .inl hname
  | decimal noughts hc =>
    exact .inr (.inl ⟨hc, _, rfl, Text.readDigits_replicate_toDigits (by decide) (by decide) noughts
      (toNat_le_maxNat32 c)⟩)
  | hexadecimal noughts hc hdigits =>
    refine .inr (.inr ⟨hc, _, rfl, Text.readDigits_of_map_toLower ?_⟩)
    rw [hdigits]
    exact Text.readDigits_replicate_toDigits (by decide) (by decide) noughts (toNat_le_maxNat32 c)

/-- The name of a reference has letters, digits and number signs only. -/
theorem RefersTo.ne_of_mem (h : RefersTo c name) {d e : Char} (hd : d ∈ name)
    (he : e.isAlphanum = false ∧ e ≠ '#') : d ≠ e := by
  rintro rfl
  have hnot {digits : List Char} {base : Nat}
      (hread : Text.readDigits base Text.maxNat32 digits = .ok c.toNat) : d ∉ digits := by
    intro hmem
    rw [Text.isAlphanum_of_digitValue? (Text.isSome_of_readDigits hread d hmem)] at he
    exact absurd he.1 (by decide)
  rcases h.cases_readDigits with hname | ⟨-, digits, rfl, hread⟩ | ⟨-, digits, rfl, hread⟩
  · have hnames : namedReferences.all (·.1.all Char.isAlphanum) = true := by decide
    rw [List.all_eq_true.mp (List.all_eq_true.mp hnames _ hname) d hd] at he
    exact absurd he.1 (by decide)
  · rcases List.mem_cons.mp hd with rfl | hd
    · exact he.2 rfl
    · exact hnot hread hd
  · rcases List.mem_cons.mp hd with rfl | hd
    · exact he.2 rfl
    · rcases List.mem_cons.mp hd with rfl | hd
      · exact absurd he.1 (by decide)
      · exact hnot hread hd

/-- A reference is resolved to the character that it refers to. -/
theorem RefersTo.referenceCharacter_eq (h : RefersTo c name) (first : Nat) :
    referenceCharacter first name = .ok c := by
  rcases h.cases_readDigits with hname | ⟨hc, digits, rfl, hread⟩ | ⟨hc, digits, rfl, hread⟩
  · simp only [namedReferences, List.mem_cons, Prod.mk.injEq, List.not_mem_nil, or_false] at hname
    rcases hname with ⟨rfl, rfl⟩ | ⟨rfl, rfl⟩ | ⟨rfl, rfl⟩ | ⟨rfl, rfl⟩ | ⟨rfl, rfl⟩ <;> rfl
  · rw [referenceCharacter, numberedCharacter, readCode_of_readDigits hread]
    · exact congrArg (Except.mapError _) (characterOf_toNat hc)
    · rintro rest rfl
      exact nomatch Text.isSome_of_readDigits hread 'x' List.mem_cons_self
  · rw [referenceCharacter, numberedCharacter, readCode_of_readDigits hread]
    exact congrArg (Except.mapError _) (characterOf_toNat hc)

/-- The name of a reference ends at the semicolon behind it. -/
theorem RefersTo.isReferenceChar_of_mem (h : RefersTo c name) :
    ∀ d ∈ name, isReferenceChar d = true := by
  intro d hd
  rw [isReferenceChar, Bool.and_eq_true, bne_iff_ne, bne_iff_ne]
  exact ⟨h.ne_of_mem hd (by decide), h.ne_of_mem hd (by decide)⟩

/-- A text without anything between its characters is resolved to the characters that it writes. -/
theorem resolveFrom_of_writes {asItself : Char → Bool} {content text : List Char}
    (hself : ∀ c, asItself c = true → c ≠ '&') (h : Writes asItself (fun _ => False) content text)
    (offset : Nat) : resolveFrom offset text = .ok content := by
  induction h generalizing offset with
  | nil => rw [resolveFrom]
  | itself hc _ ih =>
    rw [resolveFrom, if_neg (hself _ hc), ih]
    rfl
  | @reference c name content text hname _ ih =>
    have hend : ∀ d ∈ (';' :: text).head?, isReferenceChar d = false := by simp [isReferenceChar]
    have htake := takeWhile_append_of_head hname.isReferenceChar_of_mem hend
    have hdrop := dropWhile_append_of_head hname.isReferenceChar_of_mem hend
    rw [List.cons_append, resolveFrom, if_pos rfl]
    split
    next after hafter =>
      rw [hdrop] at hafter
      cases hafter
      dsimp only
      rw [htake, hname.referenceCharacter_eq, ih]
      rfl
    next hnone => exact absurd hdrop (hnone text)
  | skip haside => exact haside.elim

/-- A value is resolved to the characters that it writes. -/
theorem resolve_of_writesValue {quote : Char} {content text : List Char}
    (h : WritesValue quote content text) : resolve text = .ok content :=
  resolveFrom_of_writes (fun c hc => by simp_all [isPlain]) h 0

/-- A reference alone is resolved to the character that it refers to. -/
theorem RefersTo.resolve_eq (h : RefersTo c name) : resolve ('&' :: name ++ [';']) = .ok [c] := by
  have hwrites : WritesValue '\"' [c] ('&' :: name ++ [';']) := .reference h .nil
  exact resolve_of_writesValue hwrites

end Markup

end NifBindings
