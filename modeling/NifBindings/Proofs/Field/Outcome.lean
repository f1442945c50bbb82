import NifBindings.Proofs.Field.Presence

/-!
# What becomes of declarations

Each declaration of an entry is answered by what the declarations before it have left under its
name. It adds a field, or it is dropped, merged or in conflict, and exactly the conflicts are
reported. So every declaration is accounted for.
-/

namespace NifBindings

/-- The elements of a list, each with those before it. -/
def withEarlier {α : Type} (earlier : List α) : List α → List (List α × α)
  | [] => []
  | a :: rest => (earlier, a) :: withEarlier (earlier ++ [a]) rest

/-- An element is paired with all that stand before it. -/
theorem mem_withEarlier_iff {α : Type} {earlier list before : List α} {a : α} :
    (before, a) ∈ withEarlier earlier list ↔
      ∃ front back, list = front ++ a :: back ∧ before = earlier ++ front := by
  induction list generalizing earlier with
  | nil => simp [withEarlier]
  | cons first rest ih =>
    rw [withEarlier, List.mem_cons, ih, Prod.mk.injEq]
    constructor
    · rintro (⟨rfl, rfl⟩ | ⟨front, back, rfl, rfl⟩)
      · exact ⟨[], rest, rfl, by simp⟩
      · exact ⟨first :: front, back, rfl, by simp⟩
    · rintro ⟨front, back, hlist, rfl⟩
      cases front with
      | nil =>
        obtain ⟨rfl, -⟩ := List.cons.inj hlist
        exact .inl ⟨by simp, rfl⟩
      | cons other front =>
        obtain ⟨rfl, rfl⟩ := List.cons.inj hlist
        exact .inr ⟨front, back, rfl, by simp⟩

/-- The last element is paired with all others. -/
theorem withEarlier_concat {α : Type} (earlier list : List α) (a : α) :
    withEarlier earlier (list ++ [a]) = withEarlier earlier list ++ [(earlier ++ list, a)] := by
  induction list generalizing earlier with
  | nil => simp [withEarlier]
  | cons first rest ih => simp [withEarlier, ih]

/-- The finding about a declaration behind earlier ones. Something is kept of its name, which has
another shape, and one of the two has a condition. -/
def conflictBehind? (owner : String) (earlier : List (String × FieldType))
    (declaration : String × FieldType) : Option Diagnostic :=
  match collapsed? (declaredUnder declaration.1 earlier) with
  | none => none
  | some old =>
    if old.condition = none ∧ declaration.2.condition = none then none
    else if old.matchesShape declaration.2 then none
    else some (.fieldConflict owner declaration.1 old.display declaration.2.display)

/-- The findings about declarations, each seen behind those before it. -/
def conflicts (owner : String) (declarations : List (String × FieldType)) : List Diagnostic :=
  (withEarlier [] declarations).filterMap fun seen => conflictBehind? owner seen.1 seen.2

/-- A declaration is reported exactly if its name is stored, with another shape, and a condition
stands on one of the two. The finding shows both. -/
theorem conflictBehind?_eq_some_iff {owner : String} {earlier : List (String × FieldType)}
    {declaration : String × FieldType} {finding : Diagnostic} :
    conflictBehind? owner earlier declaration = some finding ↔
      ∃ old, collapsed? (declaredUnder declaration.1 earlier) = some old ∧
        ¬(old.condition = none ∧ declaration.2.condition = none) ∧
        old.matchesShape declaration.2 = false ∧
        finding = .fieldConflict owner declaration.1 old.display declaration.2.display := by
  unfold conflictBehind?
  cases collapsed? (declaredUnder declaration.1 earlier) with
  | none => simp
  | some old =>
    simp only [Option.some.injEq, exists_eq_left']
    by_cases hplain : old.condition = none ∧ declaration.2.condition = none
    · simp [hplain]
    · rw [if_neg hplain]
      cases hmatch : old.matchesShape declaration.2 with
      | true => simp
      | false => simp only [Bool.false_eq_true, if_false, Option.some.injEq, hplain,
          not_false_eq_true, true_and, eq_comm]

/-- The findings about declarations are those about each of them behind the ones before it. -/
theorem mem_conflicts_iff {owner : String} {declarations : List (String × FieldType)}
    {finding : Diagnostic} :
    finding ∈ conflicts owner declarations ↔ ∃ earlier declaration rest,
      declarations = earlier ++ declaration :: rest ∧
        conflictBehind? owner earlier declaration = some finding := by
  unfold conflicts
  rw [List.mem_filterMap]
  constructor
  · rintro ⟨⟨earlier, declaration⟩, hseen, hfinding⟩
    obtain ⟨front, rest, hsplit, hearlier⟩ := mem_withEarlier_iff.mp hseen
    exact ⟨earlier, declaration, rest, by rw [hsplit, hearlier, List.nil_append], hfinding⟩
  · rintro ⟨earlier, declaration, rest, rfl, hfinding⟩
    exact ⟨(earlier, declaration), mem_withEarlier_iff.mpr ⟨earlier, rest, rfl, rfl⟩, hfinding⟩

/-- What becomes of a declaration behind earlier ones. -/
def answerBehind (earlier : List (String × FieldType)) (declaration : String × FieldType) :
    Declared :=
  ((FieldMap.ofDeclarations earlier).declare declaration.1 declaration.2).2

/-- What becomes of declarations, each of them behind those before it. -/
def answers (declarations : List (String × FieldType)) : List Declared :=
  (withEarlier [] declarations).map fun seen => answerBehind seen.1 seen.2

section Step

variable (owner : String) (earlier : List (String × FieldType)) (declaration : String × FieldType)

/-- What a declaration is answered, and what it leaves, in terms of what is kept of its name. -/
theorem answerBehind_cases :
    (declaration.1 ∉ (FieldMap.ofDeclarations earlier).keys ∧
        answerBehind earlier declaration = .inserted ∧
        conflictBehind? owner earlier declaration = none) ∨
      declaration.1 ∈ (FieldMap.ofDeclarations earlier).keys ∧
        ((answerBehind earlier declaration = .dropped ∧
            conflictBehind? owner earlier declaration = none) ∨
          (answerBehind earlier declaration = .merged ∧
            conflictBehind? owner earlier declaration = none) ∨
          ∃ old, answerBehind earlier declaration = .conflict old declaration.2 ∧
            conflictBehind? owner earlier declaration =
              some (.fieldConflict owner declaration.1 old.display declaration.2.display)) := by
  unfold answerBehind conflictBehind?
  rw [← FieldMap.get?_ofDeclarations, FieldMap.mem_keys_iff]
  obtain ⟨hnone, hdeclare⟩ | ⟨old, hold, hcase⟩ :=
    FieldMap.declare_cases (FieldMap.ofDeclarations earlier) declaration.1 declaration.2
  · rw [hdeclare, hnone]
    exact .inl ⟨by simp, rfl, rfl⟩
  · rw [hold]
    refine .inr ⟨⟨old, rfl⟩, ?_⟩
    rcases hcase with ⟨hplain, hnew, hdeclare⟩ | ⟨hplain, hmatch, hdeclare⟩ |
      ⟨hplain, hmatch, hdeclare⟩
    · exact .inl ⟨by rw [hdeclare], if_pos ⟨hplain, hnew⟩⟩
    · exact .inr (.inl ⟨by rw [hdeclare], by simp [hmatch]⟩)
    · exact .inr (.inr ⟨old, by rw [hdeclare], by simp [hplain, hmatch]⟩)

/-- A declaration is reported exactly if it is in conflict. -/
theorem diagnostic?_answerBehind :
    (answerBehind earlier declaration).diagnostic? owner declaration.1 =
      conflictBehind? owner earlier declaration := by
  obtain ⟨-, hanswer, hfinding⟩ | ⟨-, hcase⟩ := answerBehind_cases owner earlier declaration
  · rw [hanswer, hfinding]
    rfl
  · obtain ⟨hanswer, hfinding⟩ | ⟨hanswer, hfinding⟩ | ⟨old, hanswer, hfinding⟩ := hcase <;>
      rw [hanswer, hfinding] <;> rfl

/-- A declaration adds a field, is dropped, is merged or is reported. -/
theorem size_ofDeclarations_concat :
    (FieldMap.ofDeclarations earlier).size + 1 =
      (FieldMap.ofDeclarations (earlier ++ [declaration])).size +
        [answerBehind earlier declaration].count .dropped +
        [answerBehind earlier declaration].count .merged +
        (conflictBehind? owner earlier declaration).toList.length := by
  have hsize (map : FieldMap) : map.size = map.keys.length := (List.length_map Prod.fst).symm
  rw [hsize, hsize, FieldMap.ofDeclarations_concat, FieldMap.keys_declare]
  obtain ⟨hnew, hanswer, hfinding⟩ | ⟨hknown, hcase⟩ := answerBehind_cases owner earlier declaration
  · simp [hnew, hanswer, hfinding]
  · rw [if_pos hknown]
    obtain ⟨hanswer, hfinding⟩ | ⟨hanswer, hfinding⟩ | ⟨old, hanswer, hfinding⟩ := hcase <;>
      simp [hanswer, hfinding]

end Step

/-- The findings about the declarations of an entry are its conflicts. -/
theorem declareAll_snd (owner : String) (declarations : List (String × FieldType)) :
    (declareAll owner OrderedMap.empty declarations).2 = conflicts owner declarations := by
  have hfrom (earlier : List (String × FieldType)) :
      (declareAll owner (FieldMap.ofDeclarations earlier) declarations).2 =
        (withEarlier earlier declarations).filterMap fun seen =>
          conflictBehind? owner seen.1 seen.2 := by
    induction declarations generalizing earlier with
    | nil => rfl
    | cons declaration rest ih =>
      have hcons : (declareAll owner (FieldMap.ofDeclarations earlier) (declaration :: rest)).2 =
          (conflictBehind? owner earlier declaration).toList ++
            (declareAll owner (FieldMap.ofDeclarations (earlier ++ [declaration])) rest).2 := by
        rw [FieldMap.ofDeclarations_concat, ← diagnostic?_answerBehind]
        rfl
      rw [hcons, ih, withEarlier, List.filterMap_cons]
      cases conflictBehind? owner earlier declaration <;> rfl
  exact hfrom []

/-- The last declaration is reported behind all others. -/
theorem conflicts_concat (owner : String) (earlier : List (String × FieldType))
    (declaration : String × FieldType) :
    conflicts owner (earlier ++ [declaration]) =
      conflicts owner earlier ++ (conflictBehind? owner earlier declaration).toList := by
  rw [conflicts, withEarlier_concat, List.filterMap_append, List.nil_append, ← conflicts]
  congr 1

/-- A declaration that was kept without a conflict is joined to the first of its name, or stands
behind a declaration without a condition that is. -/
theorem joined_or_unconditional {owner : String} {declarations : List (String × FieldType)}
    {declaration : String × FieldType} {first : FieldType} {later : List FieldType}
    (hmem : declaration ∈ declarations)
    (hkept : ∀ old new, .fieldConflict owner declaration.1 old new ∉ conflicts owner declarations)
    (hname : declaredUnder declaration.1 declarations = first :: later) :
    declaration.2 ∈ first :: later.filter first.matchesShape ∨
      joinedCondition (first :: later.filter first.matchesShape) = none := by
  obtain ⟨earlier, rest, rfl⟩ := List.append_of_mem hmem
  have hsplit : declaredUnder declaration.1 (earlier ++ declaration :: rest) =
      declaredUnder declaration.1 earlier ++
        declaration.2 :: declaredUnder declaration.1 rest := by
    simp [declaredUnder]
  rw [hsplit] at hname
  cases hearlier : declaredUnder declaration.1 earlier with
  | nil =>
    rw [hearlier] at hname
    cases hname
    exact .inl List.mem_cons_self
  | cons other front =>
    rw [hearlier] at hname
    cases hname
    cases hmatch : first.matchesShape declaration.2 with
    | true => exact .inl (by simp [hmatch])
    | false =>
      -- With another shape it was dropped, so that what it met had no condition any more.
      have hold : collapsed? (declaredUnder declaration.1 earlier) = some { first with
          condition := joinedCondition (first :: front.filter first.matchesShape) } := by
        rw [hearlier]
        rfl
      refine .inr (by_contra fun hconditions => ?_)
      refine hkept _ _ (mem_conflicts_iff.mpr ⟨earlier, declaration, rest, rfl,
        conflictBehind?_eq_some_iff.mpr ⟨_, hold, ?_, hmatch, rfl⟩⟩)
      rintro ⟨hnone, -⟩
      obtain ⟨type, htype, hnone⟩ := joinedCondition_eq_none_iff.mp hnone
      refine hconditions (joinedCondition_eq_none_iff.mpr ⟨type, ?_, hnone⟩)
      rw [List.append_eq, List.filter_append, ← List.cons_append]
      exact List.mem_append_left _ htype

/-- Every declaration adds a field, is dropped, is merged or is reported as a conflict. -/
theorem length_eq_size_add (owner : String) (declarations : List (String × FieldType)) :
    declarations.length =
      (FieldMap.ofDeclarations declarations).size + (answers declarations).count .dropped +
        (answers declarations).count .merged + (conflicts owner declarations).length := by
  induction declarations using List.reverseRecOn with
  | nil => rfl
  | append_singleton earlier declaration ih =>
    have hstep := size_ofDeclarations_concat owner earlier declaration
    have hanswers : answers (earlier ++ [declaration]) =
        answers earlier ++ [answerBehind earlier declaration] := by
      simp [answers, withEarlier_concat]
    rw [hanswers, conflicts_concat, List.length_append, List.length_append, List.count_append,
      List.count_append, List.length_singleton]
    omega

/-- The fields of an entry are its declarations, declared one after the other, and the findings
about it are their conflicts. -/
theorem readFields_eq_ok_iff {profile : Profile} {owner : String} {entry : Element}
    {fields : FieldMap} {findings : List Diagnostic} :
    readFields profile owner entry = .ok (fields, findings) ↔
      ∃ declarations, declaredFields profile owner entry = .ok declarations ∧
        fields = FieldMap.ofDeclarations declarations ∧
        findings = conflicts owner declarations := by
  unfold readFields declaredFields
  simp only [bind_eq_ok_iff, Except.ok.injEq, Prod.ext_iff, FieldMap.declareAll_fst, declareAll_snd]
  constructor
  · rintro ⟨members, hmembers, declarations, hdeclarations, rfl, rfl⟩
    exact ⟨declarations, ⟨members, hmembers, hdeclarations⟩, rfl, rfl⟩
  · rintro ⟨declarations, ⟨members, hmembers, hdeclarations⟩, rfl, rfl⟩
    exact ⟨members, hmembers, declarations, hdeclarations, rfl, rfl⟩

end NifBindings
