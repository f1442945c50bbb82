import Mathlib.Data.List.Induction
import NifBindings.Entity.Structure

/-!
# Collapsed declarations

What a field map keeps under a name is decided by the declarations of that name alone, in their
order: the first of them, with the conditions of all that have its shape joined. One declaration
keeps this so whatever it answers, hence any number of them do, in any mix with other names.
-/

namespace NifBindings

/-- The types declared under a name, in order. -/
def declaredUnder (name : String) (declarations : List (String × FieldType)) : List FieldType :=
  (declarations.filter fun declaration => declaration.1 = name).map Prod.snd

/-- Conditions joined from the left, each pair of them in parentheses. -/
def leftNested (first : String) (rest : List String) : String :=
  rest.foldl (fun joined condition => "(" ++ joined ++ ") #OR# (" ++ condition ++ ")") first

/-- The condition of joined declarations: none if one of them has none, and otherwise all of their
conditions in order, equal ones repeated. -/
def joinedCondition (types : List FieldType) : Option String :=
  if types.any (·.condition.isNone) then none
  else
    match types.filterMap FieldType.condition with
    | [] => none
    | first :: rest => some (leftNested first rest)

/-- What is kept of the declarations of one name. -/
def collapsed? : List FieldType → Option FieldType
  | [] => none
  | first :: later =>
    some { first with
      condition := joinedCondition (first :: later.filter first.matchesShape) }

/-- What is kept of a stored type when its name is declared again. -/
def FieldType.redeclared (old type : FieldType) : FieldType :=
  if old.matchesShape type then
    { old with condition := joinConditions old.condition type.condition }
  else old

/-- A stored type without a condition stays as it is. -/
theorem FieldType.redeclared_of_unconditional {old type : FieldType} (hold : old.condition = none) :
    old.redeclared type = old := by
  unfold FieldType.redeclared
  split
  · rw [hold]
    cases old
    subst hold
    rfl
  · rfl

/-- One declaration keeps its condition. -/
theorem joinedCondition_singleton (type : FieldType) : joinedCondition [type] = type.condition := by
  cases h : type.condition <;> simp [joinedCondition, leftNested, h]

/-- One more declaration joins its condition to those before it. -/
theorem joinedCondition_concat (first : FieldType) (rest : List FieldType) (type : FieldType) :
    joinedCondition (first :: rest ++ [type]) =
      joinConditions (joinedCondition (first :: rest)) type.condition := by
  unfold joinedCondition
  rw [List.any_append, List.filterMap_append]
  by_cases hany : (first :: rest).any (·.condition.isNone) = true
  · simp only [hany, Bool.true_or, if_true]
    rfl
  · cases hnew : type.condition with
    | none => simp [hnew, joinConditions]
    | some new =>
      have hnone : [type].any (·.condition.isNone) = false := by simp [hnew]
      rw [hnone, Bool.or_false, if_neg hany, if_neg hany]
      cases hfirst : first.condition with
      | none => simp [hfirst] at hany
      | some old => simp [hfirst, hnew, joinConditions, leftNested]

/-- Joined declarations have no condition exactly if one of them has none. -/
theorem joinedCondition_eq_none_iff {first : FieldType} {rest : List FieldType} :
    joinedCondition (first :: rest) = none ↔ ∃ type ∈ first :: rest, type.condition = none := by
  induction rest using List.reverseRecOn with
  | nil => simp [joinedCondition_singleton]
  | append_singleton rest last ih =>
    have hjoin (old new : Option String) :
        joinConditions old new = none ↔ old = none ∨ new = none := by
      cases old <;> cases new <;> simp [joinConditions]
    rw [← List.cons_append, joinedCondition_concat, hjoin, ih]
    simp only [List.mem_append, List.mem_singleton, or_and_right, exists_or, exists_eq_left]

/-- One more declaration redeclares what is kept of those before it. -/
theorem collapsed?_concat (types : List FieldType) (type : FieldType) :
    collapsed? (types ++ [type]) =
      some ((collapsed? types).elim type fun old => old.redeclared type) := by
  cases types with
  | nil =>
    simp only [List.nil_append, collapsed?, List.filter_nil, joinedCondition_singleton]
    rfl
  | cons first later =>
    have hshape (condition : Option String) :
        FieldType.matchesShape { first with condition } type = first.matchesShape type := rfl
    simp only [List.cons_append, collapsed?, Option.elim_some, FieldType.redeclared, hshape,
      List.filter_append]
    by_cases hmatch : first.matchesShape type = true
    · rw [if_pos hmatch, List.filter_cons_of_pos hmatch, List.filter_nil, ← List.cons_append,
        joinedCondition_concat]
    · rw [if_neg hmatch, List.filter_cons_of_neg hmatch, List.filter_nil, List.append_nil]

namespace FieldMap

/-- The map that declares fields one after the other. -/
def ofDeclarations (declarations : List (String × FieldType)) : FieldMap :=
  declarations.foldl (fun fields declaration => (fields.declare declaration.1 declaration.2).1)
    OrderedMap.empty

/-- The declarations of an entry leave the map that declares them one after the other. -/
theorem declareAll_fst (owner : String) (declarations : List (String × FieldType)) :
    (declareAll owner OrderedMap.empty declarations).1 = ofDeclarations declarations := by
  have hfrom (fields : FieldMap) : (declareAll owner fields declarations).1 =
      declarations.foldl (fun fields declaration => (fields.declare declaration.1 declaration.2).1)
        fields := by
    induction declarations generalizing fields with
    | nil => rfl
    | cons declaration rest ih => exact ih _
  exact hfrom OrderedMap.empty

/-- The map after one more declaration. -/
theorem ofDeclarations_concat (declarations : List (String × FieldType)) (name : String)
    (type : FieldType) :
    ofDeclarations (declarations ++ [(name, type)]) =
      ((ofDeclarations declarations).declare name type).1 := by
  simp [ofDeclarations]

/-- What a declaration does: it is inserted, dropped, merged or in conflict. -/
theorem declare_cases (fields : FieldMap) (name : String) (type : FieldType) :
    (fields.get? name = none ∧ fields.declare name type = (fields.insert name type, .inserted)) ∨
      ∃ old, fields.get? name = some old ∧
        ((old.condition = none ∧ type.condition = none ∧
            fields.declare name type = (fields, .dropped)) ∨
          (¬(old.condition = none ∧ type.condition = none) ∧ old.matchesShape type = true ∧
            fields.declare name type = (fields.insert name (old.redeclared type), .merged)) ∨
          (¬(old.condition = none ∧ type.condition = none) ∧ old.matchesShape type = false ∧
            fields.declare name type = (fields, .conflict old type))) := by
  unfold declare
  cases hold : fields.get? name with
  | none => exact .inl ⟨rfl, rfl⟩
  | some old =>
    refine .inr ⟨old, rfl, ?_⟩
    by_cases hplain : old.condition = none ∧ type.condition = none
    · exact .inl ⟨hplain.1, hplain.2, by simp [hplain]⟩
    · have hplain' : ¬(old.condition.isNone && type.condition.isNone) = true := by
        simpa using hplain
      simp only [if_neg hplain', FieldType.redeclared]
      cases hmatch : old.matchesShape type with
      | true => exact .inr (.inl ⟨hplain, rfl, rfl⟩)
      | false => exact .inr (.inr ⟨hplain, rfl, rfl⟩)

/-- A declaration stores its type or redeclares the stored one, and leaves all other names as they
are. -/
theorem get?_declare (fields : FieldMap) (name other : String) (type : FieldType) :
    (fields.declare name type).1.get? other =
      if name = other then some ((fields.get? name).elim type fun old => old.redeclared type)
      else fields.get? other := by
  have hkept {old : FieldType} (hold : fields.get? name = some old)
      (hsame : old.redeclared type = old) :
      fields.get? other =
        if name = other then some (old.redeclared type) else fields.get? other := by
    split
    next hname => rw [← hname, hold, hsame]
    next => rfl
  obtain ⟨hnone, hdeclare⟩ | ⟨old, hold, hcase⟩ := declare_cases fields name type
  · rw [hdeclare, hnone]
    exact OrderedMap.get?_insert fields name other type
  · rw [hold]
    rcases hcase with ⟨hcondition, _, hdeclare⟩ | ⟨_, _, hdeclare⟩ | ⟨_, hmatch, hdeclare⟩
    · rw [hdeclare]
      exact hkept hold (FieldType.redeclared_of_unconditional hcondition)
    · rw [hdeclare]
      exact OrderedMap.get?_insert fields name other (old.redeclared type)
    · rw [hdeclare]
      exact hkept hold (by simp [FieldType.redeclared, hmatch])

/-- A name has a type exactly if it is one of the names of the map. -/
theorem mem_keys_iff (fields : FieldMap) (name : String) :
    name ∈ fields.keys ↔ ∃ type, fields.get? name = some type := by
  rw [← OrderedMap.contains_iff_mem_keys, OrderedMap.contains, Option.isSome_iff_exists]

/-- A declaration of a new name adds it at the end, and any other leaves the names as they are. -/
theorem keys_declare (fields : FieldMap) (name : String) (type : FieldType) :
    (fields.declare name type).1.keys =
      if name ∈ fields.keys then fields.keys else fields.keys ++ [name] := by
  obtain ⟨_, hdeclare⟩ | ⟨old, hold, hcase⟩ := declare_cases fields name type
  · rw [hdeclare]
    exact OrderedMap.keys_insert fields name type
  · have hknown : name ∈ fields.keys := (mem_keys_iff fields name).mpr ⟨old, hold⟩
    rw [if_pos hknown]
    rcases hcase with ⟨_, _, hdeclare⟩ | ⟨_, _, hdeclare⟩ | ⟨_, _, hdeclare⟩
    · rw [hdeclare]
    · rw [hdeclare, OrderedMap.keys_insert, if_pos hknown]
    · rw [hdeclare]

/-- The names of the map are the declared ones in order of first declaration. -/
theorem keys_ofDeclarations (declarations : List (String × FieldType)) :
    (ofDeclarations declarations).keys = (declarations.map Prod.fst).eraseDups := by
  induction declarations using List.reverseRecOn with
  | nil => rfl
  | append_singleton declarations declaration ih =>
    rw [ofDeclarations_concat, keys_declare, ih, List.map_append, List.eraseDups_append]
    by_cases hmem : declaration.1 ∈ declarations.map Prod.fst
    · rw [if_pos (List.mem_eraseDups.mpr hmem)]
      simp [List.removeAll, hmem]
    · rw [if_neg (fun h => hmem (List.mem_eraseDups.mp h))]
      simp [List.removeAll, hmem, List.eraseDups_cons]

/-- What the map holds under a name is what is kept of the declarations of that name. -/
theorem get?_ofDeclarations (declarations : List (String × FieldType)) (name : String) :
    (ofDeclarations declarations).get? name = collapsed? (declaredUnder name declarations) := by
  induction declarations using List.reverseRecOn with
  | nil => rfl
  | append_singleton declarations declaration ih =>
    rw [ofDeclarations_concat, get?_declare]
    unfold declaredUnder at ih ⊢
    rw [List.filter_append, List.map_append]
    split
    next hname =>
      subst hname
      rw [ih, List.filter_cons_of_pos (by simp)]
      exact (collapsed?_concat _ _).symm
    next hname =>
      rw [ih, List.filter_cons_of_neg (by simpa using hname), List.filter_nil, List.map_nil,
        List.append_nil]

/-- A declaration is inserted exactly if its name is new. -/
theorem declare_inserted_iff (fields : FieldMap) (name : String) (type : FieldType) :
    (fields.declare name type).2 = .inserted ↔ name ∉ fields.keys := by
  rw [mem_keys_iff]
  obtain ⟨hnone, hdeclare⟩ | ⟨old, hold, hcase⟩ := declare_cases fields name type
  · simp [hdeclare, hnone]
  · rcases hcase with ⟨_, _, hdeclare⟩ | ⟨_, _, hdeclare⟩ | ⟨_, _, hdeclare⟩ <;>
      simp [hdeclare, hold]

/-- A declaration is dropped exactly if neither it nor the stored one has a condition. -/
theorem declare_dropped_iff (fields : FieldMap) (name : String) (type : FieldType) :
    (fields.declare name type).2 = .dropped ↔
      ∃ old, fields.get? name = some old ∧ old.condition = none ∧ type.condition = none := by
  obtain ⟨hnone, hdeclare⟩ | ⟨old, hold, hcase⟩ := declare_cases fields name type
  · simp [hdeclare, hnone]
  · rcases hcase with ⟨holdnone, hnew, hdeclare⟩ | ⟨hplain, _, hdeclare⟩ | ⟨hplain, _, hdeclare⟩
    · simp [hdeclare, hold, holdnone, hnew]
    · simpa [hdeclare, hold] using hplain
    · simpa [hdeclare, hold] using hplain

/-- A declaration is in conflict exactly if a condition stands on it or the stored one and their
shapes differ, and then with the stored one. -/
theorem declare_conflict_iff (fields : FieldMap) (name : String) (type old new : FieldType) :
    (fields.declare name type).2 = .conflict old new ↔
      fields.get? name = some old ∧ new = type ∧
        ¬(old.condition = none ∧ type.condition = none) ∧ old.matchesShape type = false := by
  obtain ⟨hnone, hdeclare⟩ | ⟨stored, hstored, hcase⟩ := declare_cases fields name type
  · simp [hdeclare, hnone]
  · rw [hstored, Option.some.injEq]
    rcases hcase with ⟨hnone, hnew, hdeclare⟩ | ⟨_, hmatch, hdeclare⟩ | ⟨hplain, hmatch, hdeclare⟩
    · rw [hdeclare]
      constructor
      · intro h
        cases h
      · rintro ⟨rfl, _, hplain, _⟩
        exact absurd ⟨hnone, hnew⟩ hplain
    · rw [hdeclare]
      constructor
      · intro h
        cases h
      · rintro ⟨rfl, _, _, hdiffer⟩
        rw [hmatch] at hdiffer
        cases hdiffer
    · rw [hdeclare]
      constructor
      · intro h
        cases h
        exact ⟨rfl, rfl, hplain, hmatch⟩
      · rintro ⟨rfl, rfl, _⟩
        rfl

/-- A declaration that is neither inserted nor merged leaves the map as it is. -/
theorem declare_fst_eq (fields : FieldMap) (name : String) (type : FieldType) :
    (fields.declare name type).1 = fields ∨ (fields.declare name type).2 = .inserted ∨
      (fields.declare name type).2 = .merged := by
  obtain ⟨_, hdeclare⟩ | ⟨_, _, hcase⟩ := declare_cases fields name type
  · simp [hdeclare]
  · rcases hcase with ⟨_, _, hdeclare⟩ | ⟨_, _, hdeclare⟩ | ⟨_, _, hdeclare⟩ <;> simp [hdeclare]

/-- The finding about a declaration in conflict shows the stored type and the new one. -/
theorem diagnostic?_declare_iff (fields : FieldMap) (owner name : String) (type : FieldType)
    (finding : Diagnostic) :
    (fields.declare name type).2.diagnostic? owner name = some finding ↔
      ∃ old, fields.get? name = some old ∧ ¬(old.condition = none ∧ type.condition = none) ∧
        old.matchesShape type = false ∧
        finding = .fieldConflict owner name old.display type.display := by
  have hiff : (fields.declare name type).2.diagnostic? owner name = some finding ↔
      ∃ old new, (fields.declare name type).2 = .conflict old new ∧
        finding = .fieldConflict owner name old.display new.display := by
    cases (fields.declare name type).2 <;> simp [Declared.diagnostic?, eq_comm]
  rw [hiff]
  constructor
  · rintro ⟨old, new, hconflict, hfinding⟩
    obtain ⟨hold, rfl, hplain, hmatch⟩ := (declare_conflict_iff ..).mp hconflict
    exact ⟨old, hold, hplain, hmatch, hfinding⟩
  · rintro ⟨old, hold, hplain, hmatch, hfinding⟩
    exact ⟨old, type, (declare_conflict_iff ..).mpr ⟨hold, rfl, hplain, hmatch⟩, hfinding⟩

/-- After any declarations the names stand in order of their first declaration, and each holds its
first type with the conditions of all that match it joined. One more declaration is dropped exactly
if neither it nor the stored one has a condition, is in conflict exactly if otherwise their shapes
differ, and leaves the map as it is in both cases. -/
theorem declarations_collapse (declarations : List (String × FieldType)) :
    (ofDeclarations declarations).keys = (declarations.map Prod.fst).eraseDups ∧
      (∀ name, (ofDeclarations declarations).get? name =
        collapsed? (declaredUnder name declarations)) ∧
      ∀ (name : String) (type : FieldType),
        let (fields, answer) := (ofDeclarations declarations).declare name type
        let stored? := collapsed? (declaredUnder name declarations)
        (answer = .inserted ↔ name ∉ declarations.map Prod.fst) ∧
          (answer = .dropped ↔
            ∃ old, stored? = some old ∧ old.condition = none ∧ type.condition = none) ∧
          (∀ (owner : String) (finding : Diagnostic),
            answer.diagnostic? owner name = some finding ↔
              ∃ old, stored? = some old ∧ ¬(old.condition = none ∧ type.condition = none) ∧
                old.matchesShape type = false ∧
                finding = .fieldConflict owner name old.display type.display) ∧
          (answer = .dropped ∨ (∃ old new, answer = .conflict old new) →
            fields = ofDeclarations declarations) := by
  refine ⟨keys_ofDeclarations declarations, get?_ofDeclarations declarations, ?_⟩
  intro name type
  dsimp only
  rw [← get?_ofDeclarations]
  refine ⟨?_, declare_dropped_iff .., fun owner finding => diagnostic?_declare_iff .., ?_⟩
  · rw [declare_inserted_iff, keys_ofDeclarations, List.mem_eraseDups]
  · intro hanswer
    rcases declare_fst_eq (ofDeclarations declarations) name type with h | h | h
    · exact h
    · simp [h] at hanswer
    · simp [h] at hanswer

end FieldMap

end NifBindings
