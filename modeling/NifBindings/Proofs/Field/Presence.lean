import NifBindings.Field.Guard
import NifBindings.Proofs.Inclusion
import NifBindings.Proofs.Expr.Joined
import NifBindings.Proofs.Field.Collapse

/-!
# Presence of fields

A field is present in a file if its guard holds there. The field that is kept of several matching
declarations has the versions of the first of them and the disjunction of all their conditions, so
it is present wherever one of them is, as long as their versions do not tell them apart.
-/

namespace NifBindings

/-- What the parts of an expression mean. Every meaning will do in which `||` is a disjunction. -/
structure Meaning (α : Type) where
  /-- The value of a numeral. -/
  numeral : String → α
  /-- The value of a name. -/
  reference : Reference → α
  /-- The value behind a unary operator. -/
  unary : UnaryOperator → α → α
  /-- The value of two operands with an operator between them. -/
  binary : Operator → α → α → α
  /-- Whether a value counts as true. -/
  truth : α → Bool
  /-- A disjunction is true exactly if one of its operands is. -/
  truth_or (a b : α) : truth (binary .or a b) = (truth a || truth b)

variable {α : Type}

/-- The value of an expression. -/
def Expr.value (meaning : Meaning α) : Expr → α
  | .numeral digits => meaning.numeral digits
  | .reference target => meaning.reference target
  | .group inner => inner.value meaning
  | .binary lhs op rhs => meaning.binary op (lhs.value meaning) (rhs.value meaning)
  | .unary ops inner => ops.foldr meaning.unary (inner.value meaning)

/-- Whether a condition is true. Where there is none it is. -/
def conditionTruth (meaning : Meaning α) (condition : Option Expr) : Bool :=
  condition.all fun expr => meaning.truth (expr.value meaning)

/-- Whether a guard holds in the files of a version. -/
def Guard.holds (meaning : Meaning α) (version : Version) (guard : Guard) : Bool :=
  guard.range.contains version && conditionTruth meaning guard.condition

/-- Whether the condition of a field is true or it has none. -/
def FieldType.conditionHolds (meaning : Meaning α) (type : FieldType) : Prop :=
  ∃ condition, type.conditionExpr = .ok condition ∧ conditionTruth meaning condition = true

/-- Whether a field is present in the files of a version. -/
def FieldType.isPresent (meaning : Meaning α) (version : Version) (type : FieldType) : Prop :=
  ∃ guard, type.guard = .ok guard ∧ guard.holds meaning version = true

instance (meaning : Meaning α) (version : Version) (type : FieldType) :
    Decidable (type.isPresent meaning version) :=
  decidable_of_iff (∃ guard ∈ type.guard.toOption, guard.holds meaning version = true) <| by
    simp [FieldType.isPresent, toOption_eq_some_iff]

@[simp] theorem Expr.value_asOperand (meaning : Meaning α) (expr : Expr) :
    expr.asOperand.value meaning = expr.value meaning := by
  unfold asOperand
  split <;> rfl

/-- A guard has the condition and the versions of its field. -/
theorem FieldType.guard_eq_ok_iff {type : FieldType} {guard : Guard} :
    type.guard = .ok guard ↔
      type.conditionExpr = .ok guard.condition ∧ type.versionRange = .ok guard.range := by
  unfold FieldType.guard
  simp only [bind_eq_ok_iff, Except.ok.injEq]
  constructor
  · rintro ⟨condition, hcondition, range, hrange, rfl⟩
    exact ⟨hcondition, hrange⟩
  · rintro ⟨hcondition, hrange⟩
    exact ⟨_, hcondition, _, hrange, rfl⟩

/-- A field is present exactly if its versions include the one of the file and its condition is
true. -/
theorem FieldType.isPresent_iff {meaning : Meaning α} {version : Version} {type : FieldType}
    {range : VersionRange} (hrange : type.versionRange = .ok range) :
    type.isPresent meaning version ↔
      range.contains version = true ∧ type.conditionHolds meaning := by
  unfold FieldType.isPresent FieldType.conditionHolds
  simp only [FieldType.guard_eq_ok_iff, Guard.holds, Bool.and_eq_true]
  constructor
  · rintro ⟨guard, ⟨hcondition, hrange'⟩, hversion, htruth⟩
    rw [hrange, Except.ok.injEq] at hrange'
    exact ⟨hrange' ▸ hversion, guard.condition, hcondition, htruth⟩
  · rintro ⟨hversion, condition, hcondition, htruth⟩
    exact ⟨⟨condition, range⟩, ⟨hcondition, hrange⟩, hversion, htruth⟩

/-- A value that is there is read by the reader. -/
theorem readOptional_some_eq_ok_iff {β γ : Type} {read : β → Except InputError γ} {value : β}
    {result : Option γ} :
    readOptional read (some value) = .ok result ↔
      ∃ found, read value = .ok found ∧ result = some found := by
  unfold readOptional
  cases hvalue : read value with
  | error e => simp [hvalue, Except.map]
  | ok found => simp [hvalue, Except.map, eq_comm]

/-- A joined condition can be read, and is true exactly if one of the two is. -/
theorem exists_joinConditions {old new : Option String} {a b : Option Expr}
    (hold : readOptional Expr.parse old = .ok a) (hnew : readOptional Expr.parse new = .ok b) :
    ∃ joined, readOptional Expr.parse (joinConditions old new) = .ok joined ∧
      ∀ {α : Type} (meaning : Meaning α),
        conditionTruth meaning joined = (conditionTruth meaning a || conditionTruth meaning b) := by
  cases old with
  | none =>
    cases hold
    exact ⟨none, rfl, fun meaning => by simp [conditionTruth]⟩
  | some old =>
    cases new with
    | none =>
      cases hnew
      exact ⟨none, rfl, fun meaning => by simp [conditionTruth]⟩
    | some new =>
      obtain ⟨lhs, hlhs, rfl⟩ := readOptional_some_eq_ok_iff.mp hold
      obtain ⟨rhs, hrhs, rfl⟩ := readOptional_some_eq_ok_iff.mp hnew
      refine ⟨some (.binary lhs.asOperand .or rhs.asOperand), ?_, ?_⟩
      · exact readOptional_some_eq_ok_iff.mpr ⟨_, Expr.parse_joined hlhs hrhs, rfl⟩
      · intro α meaning
        simp [conditionTruth, Expr.value, meaning.truth_or]

/-- The joined condition of declarations can be read if each of theirs can, and is true exactly if
one of theirs is. -/
theorem exists_joinedCondition (first : FieldType) (rest : List FieldType)
    (hconditions : ∀ type ∈ first :: rest, ∃ condition, type.conditionExpr = .ok condition) :
    ∃ joined, readOptional Expr.parse (joinedCondition (first :: rest)) = .ok joined ∧
      ∀ {α : Type} (meaning : Meaning α), conditionTruth meaning joined = true ↔
        ∃ type ∈ first :: rest, type.conditionHolds meaning := by
  induction rest using List.reverseRecOn with
  | nil =>
    obtain ⟨condition, hcondition⟩ := hconditions first (by simp)
    refine ⟨condition, by rwa [joinedCondition_singleton], ?_⟩
    intro α meaning
    simp [FieldType.conditionHolds, hcondition]
  | append_singleton rest last ih =>
    obtain ⟨joined, hjoined, htruth⟩ := ih fun type htype =>
      hconditions type (List.mem_append_left [last] htype)
    obtain ⟨condition, hcondition⟩ := hconditions last (by simp)
    obtain ⟨all, hall, htruth'⟩ := exists_joinConditions hjoined hcondition
    refine ⟨all, ?_, ?_⟩
    · rwa [← List.cons_append, joinedCondition_concat]
    · intro α meaning
      have hlast : last.conditionHolds meaning ↔ conditionTruth meaning condition = true := by
        simp [FieldType.conditionHolds, hcondition]
      rw [htruth', Bool.or_eq_true, htruth, ← hlast, ← List.cons_append]
      simp only [List.mem_append, List.mem_singleton, or_and_right, exists_or, exists_eq_left]

/-- A version can only be compared with a text that is a version. -/
theorem Version.exists_parse_of_relationTo {version : Version} {text : String}
    {test : Ordering → Bool} {answer : Bool} (h : (version.relationTo text).map test = .ok answer) :
    ∃ other, parse text = .ok other := by
  unfold relationTo at h
  cases hparse : parse text with
  | error e => simp [hparse, Bind.bind, Except.bind, Except.map] at h
  | ok other => exact ⟨other, rfl⟩

/-- A member that exists in some version has bounds that can be read. -/
theorem Profile.exists_bounds_of_memberExistsIn {attributes : Attributes} {version : Version}
    (h : memberExistsIn attributes version = .ok true) :
    (∃ first, readOptional Version.parse (attributes.get? "ver1") = .ok first) ∧
      ∃ last, readOptional Version.parse (attributes.get? "ver2") = .ok last := by
  have hbound {text : String} {test : Ordering → Bool} {answer : Bool}
      (h : (version.relationTo text).map test = .ok answer) :
      ∃ bound, readOptional Version.parse (some text) = .ok bound := by
    obtain ⟨other, hother⟩ := Version.exists_parse_of_relationTo h
    exact ⟨some other, readOptional_some_eq_ok_iff.mpr ⟨other, hother, rfl⟩⟩
  unfold memberExistsIn at h
  cases hver1 : attributes.get? "ver1" with
  | none =>
    refine ⟨⟨none, rfl⟩, ?_⟩
    cases hver2 : attributes.get? "ver2" with
    | none => exact ⟨none, rfl⟩
    | some last =>
      rw [hver1, hver2] at h
      exact hbound h
  | some first =>
    rw [hver1] at h
    obtain ⟨started, hstarted, h⟩ := bind_eq_ok_iff.mp h
    cases started with
    | false => cases h
    | true =>
      refine ⟨hbound hstarted, ?_⟩
      cases hver2 : attributes.get? "ver2" with
      | none => exact ⟨none, rfl⟩
      | some last =>
        rw [hver2] at h
        exact hbound h

/-- A check that some version of a list passes is passed by one of them. -/
theorem exists_mem_of_anyVersion {check : Version → Except InputError Bool}
    {versions : List Version} (h : anyVersion check versions = .ok true) :
    ∃ version ∈ versions, check version = .ok true := by
  induction versions with
  | nil => cases h
  | cons version rest ih =>
    rw [anyVersion] at h
    obtain ⟨passed, hpassed, h⟩ := bind_eq_ok_iff.mp h
    cases passed with
    | true => exact ⟨version, List.mem_cons_self, hpassed⟩
    | false =>
      obtain ⟨other, hother, hpassed⟩ := ih (by simpa using h)
      exact ⟨other, List.mem_cons_of_mem version hother, hpassed⟩

/-- A check that some version passes is passed by one of them. -/
theorem exists_of_anyVersion {check : Version → Except InputError Bool} {versions : List Version}
    (h : anyVersion check versions = .ok true) : ∃ version, check version = .ok true := by
  obtain ⟨version, -, hpassed⟩ := exists_mem_of_anyVersion h
  exact ⟨version, hpassed⟩

/-- The declarations of an entry that are generated, in order. -/
def declaredFields (profile : Profile) (owner : String) (entry : Element) :
    Except InputError (List (String × FieldType)) :=
  profile.emittedMembers entry >>= fun members => members.mapM (declaredField profile owner)

/-- The fields of an entry are its declarations, declared one after the other. -/
theorem readFields_of_declaredFields {profile : Profile} {owner : String} {entry : Element}
    {declarations : List (String × FieldType)}
    (hdeclared : declaredFields profile owner entry = .ok declarations) :
    ∃ findings, readFields profile owner entry =
      .ok (FieldMap.ofDeclarations declarations, findings) := by
  obtain ⟨members, hmembers, hmap⟩ := bind_eq_ok_iff.mp hdeclared
  refine ⟨(declareAll owner OrderedMap.empty declarations).2, ?_⟩
  rw [← FieldMap.declareAll_fst owner]
  exact bind_eq_ok_iff.mpr ⟨members, hmembers, bind_eq_ok_iff.mpr ⟨declarations, hmap, rfl⟩⟩

/-- A declared field has the versions of its member, whatever the profile corrects. -/
theorem bounds_of_declaredField {profile : Profile} {owner : String} {member : Element}
    {declaration : String × FieldType} (h : declaredField profile owner member = .ok declaration) :
    declaration.2.since = member.attributes.get? "ver1" ∧
      declaration.2.last = member.attributes.get? "ver2" := by
  obtain ⟨name, _, h⟩ := bind_eq_ok_iff.mp h
  obtain ⟨type, htype, h⟩ := bind_eq_ok_iff.mp h
  obtain ⟨base, _, hattributes⟩ := bind_eq_ok_iff.mp htype
  cases hattributes
  split at h
  · cases h
    exact ⟨rfl, rfl⟩
  · cases h
    exact ⟨rfl, rfl⟩

/-- The versions of every generated declaration can be read. -/
theorem exists_versionRange_of_declaredFields {profile : Profile} {owner : String}
    {entry : Element} {declarations : List (String × FieldType)}
    (hdeclared : declaredFields profile owner entry = .ok declarations)
    {declaration : String × FieldType} (hmem : declaration ∈ declarations) :
    ∃ range, declaration.2.versionRange = .ok range := by
  obtain ⟨members, hmembers, hmap⟩ := bind_eq_ok_iff.mp hdeclared
  obtain ⟨member, hmember, hdeclaration⟩ := exists_of_mem_mapM hmap hmem
  have hemits : profile.emitsMember member.attributes = .ok true :=
    emits_of_mem_filterEmitted hmembers hmember
  obtain ⟨exists_, hexists, hemits⟩ := bind_eq_ok_iff.mp hemits
  cases exists_ with
  | false => cases hemits
  | true =>
    obtain ⟨version, hversion⟩ := exists_of_anyVersion hexists
    obtain ⟨⟨first, hfirst⟩, last, hlast⟩ := Profile.exists_bounds_of_memberExistsIn hversion
    obtain ⟨hsince, huntil⟩ := bounds_of_declaredField hdeclaration
    refine ⟨⟨first, last⟩, bind_eq_ok_iff.mpr ⟨first, by rwa [hsince], ?_⟩⟩
    exact bind_eq_ok_iff.mpr ⟨last, by rwa [huntil], rfl⟩

/-- Matching declarations of one name leave one field. In the files of a version it is present
exactly if the first declaration has that version and some declaration has no condition or one that
is true, which is to say that one of them is present if their versions agree there. -/
theorem kept_isPresent_iff {profile : Profile} {owner name : String} {entry : Element}
    {declarations : List (String × FieldType)} {first : FieldType} {later : List FieldType}
    (hdeclared : declaredFields profile owner entry = .ok declarations)
    (hname : declaredUnder name declarations = first :: later)
    (hmatch : ∀ type ∈ later, first.matchesShape type = true)
    (hconditions : ∀ type ∈ first :: later, ∃ condition, type.conditionExpr = .ok condition) :
    ∃ fields findings kept guard range,
      readFields profile owner entry = .ok (fields, findings) ∧ fields.get? name = some kept ∧
        kept.guard = .ok guard ∧ first.versionRange = .ok range ∧
        (∀ type ∈ first :: later, ∃ own, type.guard = .ok own) ∧
        ∀ {α : Type} (meaning : Meaning α) (version : Version),
          (guard.holds meaning version = true ↔
            range.contains version = true ∧
              ∃ type ∈ first :: later, type.conditionHolds meaning) ∧
          ((∀ type ∈ later, ∀ own, type.versionRange = .ok own →
              own.contains version = range.contains version) →
            (guard.holds meaning version = true ↔
              ∃ type ∈ first :: later, type.isPresent meaning version)) := by
  have hrange (type : FieldType) (htype : type ∈ first :: later) :
      ∃ range, type.versionRange = .ok range := by
    rw [← hname] at htype
    obtain ⟨declaration, hdeclaration, rfl⟩ := List.mem_map.mp htype
    exact exists_versionRange_of_declaredFields hdeclared (List.mem_filter.mp hdeclaration).1
  obtain ⟨findings, hread⟩ := readFields_of_declaredFields hdeclared
  obtain ⟨range, hfirst⟩ := hrange first (by simp)
  obtain ⟨joined, hjoined, htruth⟩ := exists_joinedCondition first later hconditions
  have hkept : (FieldMap.ofDeclarations declarations).get? name =
      some { first with condition := joinedCondition (first :: later) } := by
    rw [FieldMap.get?_ofDeclarations, hname, collapsed?, List.filter_eq_self.mpr hmatch]
  have hholds {α : Type} (meaning : Meaning α) (version : Version) :
      Guard.holds meaning version ⟨joined, range⟩ = true ↔
        range.contains version = true ∧
          ∃ type ∈ first :: later, type.conditionHolds meaning := by
    rw [Guard.holds, Bool.and_eq_true, htruth]
  refine ⟨_, findings, _, ⟨joined, range⟩, range, hread, hkept,
    FieldType.guard_eq_ok_iff.mpr ⟨hjoined, hfirst⟩, hfirst, ?_, ?_⟩
  · intro type htype
    obtain ⟨own, hown⟩ := hrange type htype
    obtain ⟨condition, hcondition⟩ := hconditions type htype
    exact ⟨⟨condition, own⟩, FieldType.guard_eq_ok_iff.mpr ⟨hcondition, hown⟩⟩
  · intro α meaning version
    refine ⟨hholds meaning version, fun hagree => ?_⟩
    have hpresent (type : FieldType) (htype : type ∈ first :: later) :
        type.isPresent meaning version ↔
          range.contains version = true ∧ type.conditionHolds meaning := by
      obtain ⟨own, hown⟩ := hrange type htype
      have hcontains : own.contains version = range.contains version := by
        rcases List.mem_cons.mp htype with rfl | hlater
        · rw [hfirst, Except.ok.injEq] at hown
          rw [hown]
        · exact hagree type hlater own hown
      rw [FieldType.isPresent_iff hown, hcontains]
    rw [hholds]
    constructor
    · rintro ⟨hversion, type, htype, hcondition⟩
      exact ⟨type, htype, (hpresent type htype).mpr ⟨hversion, hcondition⟩⟩
    · rintro ⟨type, htype, htypepresent⟩
      obtain ⟨hversion, hcondition⟩ := (hpresent type htype).mp htypepresent
      exact ⟨hversion, type, htype, hcondition⟩

/-- A member of an entry with the name of a field, its type and some bounds or conditions. -/
def fieldElement (extra : List (String × String)) : Element where
  tag := "field"
  attributes := .ofList ([("name", "Radius"), ("type", "float")] ++ extra)
  text := ""
  children := []

/-- An entry with some members. -/
def compoundElement (members : List Element) : Element where
  tag := "compound"
  attributes := .ofList [("name", "Bounds")]
  text := ""
  children := members

/-- An entry that declares a field under two conditions. -/
def conditionalEntry : Element :=
  compoundElement [fieldElement [("cond", "Is Sphere")],
    fieldElement [("cond", "Kind #GT# 2"), ("ver1", "10.1.0.0")]]

/-- A field declared under two conditions, the second time from some version on, is present in a
version of the first declaration if one of them is true. -/
theorem kept_isPresent_conditionalEntry :
    ∃ first second fields findings kept guard range,
      first.condition = some "Is Sphere" ∧ second.condition = some "Kind #GT# 2" ∧
        declaredFields .default "Bounds" conditionalEntry =
          .ok [("radius", first), ("radius", second)] ∧
        readFields .default "Bounds" conditionalEntry = .ok (fields, findings) ∧
        fields.get? "radius" = some kept ∧ kept.guard = .ok guard ∧
        first.versionRange = .ok range ∧
        ∀ {α : Type} (meaning : Meaning α) (version : Version),
          guard.holds meaning version = true ↔ range.contains version = true ∧
            (first.conditionHolds meaning ∨ second.conditionHolds meaning) := by
  let first : FieldType := { base := "f32", condition := some "Is Sphere" }
  let second : FieldType :=
    { base := "f32", condition := some "Kind #GT# 2", since := some "10.1.0.0" }
  have hdeclared : declaredFields .default "Bounds" conditionalEntry =
      .ok [("radius", first), ("radius", second)] := by
    decide +kernel
  have hkind : matchShape? "Kind #GT# 2".toList =
      some ⟨.bare, [], "Kind".toList, .symbolic .gt, "2".toList⟩ := by
    decide +kernel
  have hleaf (text : String) (htext : isCompound text.toList = false) :
      Expr.Reads text.toList (.leaf text) := by
    simpa using Expr.Reads.leaf htext
  have hreads : Expr.Reads "Kind #GT# 2".toList _ :=
    .node hkind (by decide) (hleaf "Kind" (by decide +kernel)) (hleaf "2" (by decide +kernel))
  have hparse {text : String} {expr : Expr} (h : Expr.Reads text.toList expr) :
      readOptional Expr.parse (some text) = .ok (some expr) :=
    readOptional_some_eq_ok_iff.mpr ⟨expr, Expr.parseChars_eq_ok_iff.mpr h, rfl⟩
  have hconditions : ∀ type ∈ [first, second], ∃ condition, type.conditionExpr = .ok condition := by
    simp only [List.mem_cons, List.not_mem_nil, or_false, forall_eq_or_imp, forall_eq]
    exact ⟨⟨_, hparse (hleaf "Is Sphere" (by decide +kernel))⟩, _, hparse hreads⟩
  have hname : declaredUnder "radius" [("radius", first), ("radius", second)] = [first, second] :=
    rfl
  obtain ⟨fields, findings, kept, guard, range, hread, hkept, hguard, hrange, _, hholds⟩ :=
    kept_isPresent_iff hdeclared hname (by decide +kernel) hconditions
  refine ⟨first, second, fields, findings, kept, guard, range, rfl, rfl, hdeclared, hread, hkept,
    hguard, hrange, ?_⟩
  intro α meaning version
  simpa using (hholds meaning version).1

/-- An entry that declares a field for late versions and then for early ones. -/
def reopenedEntry : Element :=
  compoundElement [fieldElement [("ver1", "20.3.0.0")], fieldElement [("ver2", "20.2.0.0")]]

/-- The versions of the second declaration are lost. -/
theorem kept_not_isPresent_reopenedEntry :
    ∃ first second kept guard fields findings,
      declaredFields .default "Bounds" reopenedEntry =
          .ok [("radius", first), ("radius", second)] ∧
        Profile.default.fieldOverride? "Bounds" "radius" = none ∧
        first.matchesShape second = true ∧ first.condition = none ∧ second.condition = none ∧
        readFields .default "Bounds" reopenedEntry = .ok (fields, findings) ∧
        fields.get? "radius" = some kept ∧ kept.guard = .ok guard ∧
        ∀ {α : Type} (meaning : Meaning α), guard.holds meaning ⟨20, 1, 0, 3⟩ = false ∧
          second.isPresent meaning ⟨20, 1, 0, 3⟩ := by
  have hdeclared : declaredFields .default "Bounds" reopenedEntry =
      .ok [("radius", { base := "f32", since := some "20.3.0.0" }),
        ("radius", { base := "f32", last := some "20.2.0.0" })] := by
    decide +kernel
  obtain ⟨findings, hread⟩ := readFields_of_declaredFields hdeclared
  refine ⟨_, _, { base := "f32", since := some "20.3.0.0" }, ⟨none, ⟨some ⟨20, 3, 0, 0⟩, none⟩⟩, _,
    findings, hdeclared, by decide +kernel, rfl, rfl, rfl, hread, by decide +kernel,
    by decide +kernel, ?_⟩
  intro α meaning
  refine ⟨by rfl, ⟨none, ⟨none, some ⟨20, 2, 0, 0⟩⟩⟩, by decide +kernel, by rfl⟩

end NifBindings
